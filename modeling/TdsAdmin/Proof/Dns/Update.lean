import TdsAdmin.Dns.Update

/-!
# What the registration of a name asks for

A name server answers a question for a name with the record it holds, among lines that are comments
or say nothing of the name (`IsAnswer`). From such an answer the script takes the lifetime and the
value as they are in the zone (`updateCname_eq`), and its request is read as the deletion of exactly
that record and the creation of the new one (`request_read`), which is what a zone needs to accept
it (`registered`).
-/

set_option autoImplicit false

namespace TdsAdmin
namespace Dns

open Fields (awkFields cutField)
open Xml (Chunk)

/-! ## Names -/

def PlainName (s : Text) : Prop := ∀ c ∈ s, isNameChar c = true

theorem PlainName.not_mem {s : Text} (h : PlainName s) {c : Char} (hc : isNameChar c = false) :
    c ∉ s := by
  intro hmem
  rw [h c hmem] at hc
  cases hc

theorem PlainName.append {s t : Text} (hs : PlainName s) (ht : PlainName t) :
    PlainName (s ++ t) := by
  intro c hc
  rcases List.mem_append.mp hc with hc | hc
  · exact hs c hc
  · exact ht c hc

theorem PlainName.rooted {s : Text} (h : PlainName s) : PlainName (s ++ ['.']) :=
  h.append (by simp [PlainName, isNameChar])

theorem PlainName.not_pattern {s : Text} (h : PlainName s) : Expand.isPattern s = false := by
  apply Expand.isPattern_eq_false
  intro c hc hpattern
  have hname := h c hc
  simp only [List.mem_cons, List.not_mem_nil, or_false] at hpattern
  rcases hpattern with rfl | rfl | rfl <;> exact absurd hname (by decide)

/-- A host name. -/
structure Hostname where
  text : Text
  ne_nil : text ≠ []
  plain : PlainName text

/-- A lifetime is a number. -/
structure Lifetime where
  text : Text
  ne_nil : text ≠ []
  digits : ∀ c ∈ text, Text.isDigit c = true

theorem Lifetime.plain (t : Lifetime) : PlainName t.text := by
  intro c hc
  have hdigit := t.digits c hc
  simp only [Text.isDigit] at hdigit
  simp [isNameChar, Char.isAlphanum, hdigit]

/-! ## Answers -/

/-- The line for a record, however its fields are spaced. -/
structure IsRecordLine (fqdn : Hostname) (ttl : Lifetime) (target : Hostname) (line : Text) :
    Prop where
  starts : fqdn.text <+: line
  no_newline : '\n' ∉ line
  no_comment : ';' ∉ line
  fields : awkFields line = [fqdn.text ++ ['.'], ttl.text, "IN".toList, "CNAME".toList,
    target.text ++ ['.']]

/-- A line that says nothing of the name. -/
def Beside (fqdn : Hostname) (line : Text) : Prop :=
  '\n' ∉ line ∧ (';' ∈ line ∨ grepHost fqdn.text line = false)

/-- What a name server answers that holds this of the name. -/
inductive IsAnswer (fqdn : Hostname) : Option (Lifetime × Hostname) → Text → Prop where
  | none {lines : List Text} (h : ∀ l ∈ lines, Beside fqdn l) :
      IsAnswer fqdn none (Text.unlines lines)
  | some {above below : List Text} {line : Text} {ttl : Lifetime} {target : Hostname}
      (habove : ∀ l ∈ above, Beside fqdn l) (h : IsRecordLine fqdn ttl target line)
      (hbelow : ∀ l ∈ below, Beside fqdn l) :
      IsAnswer fqdn (some (ttl, target)) (Text.unlines (above ++ line :: below))

theorem matchesHere_self (fqdn rest : Text) : matchesHere fqdn (fqdn ++ rest) = true := by
  induction fqdn with
  | nil => rfl
  | cons c fqdn ih => simp [matchesHere, ih]

theorem IsRecordLine.found {fqdn target : Hostname} {ttl : Lifetime} {line : Text}
    (h : IsRecordLine fqdn ttl target line) : grepHost fqdn.text line = true := by
  obtain ⟨rest, rfl⟩ := h.starts
  apply List.any_eq_true.mpr
  exact ⟨fqdn.text ++ rest, by simp, matchesHere_self _ _⟩

theorem IsRecordLine.ne_nil {fqdn target : Hostname} {ttl : Lifetime} {line : Text}
    (h : IsRecordLine fqdn ttl target line) : line ≠ [] := by
  rintro rfl
  exact fqdn.ne_nil (List.prefix_nil.mp h.starts)

/-- What `grep` leaves of some lines. -/
def asked (fqdn : Hostname) (lines : List Text) : List Text :=
  (lines.filter fun line => !line.contains ';').filter (grepHost fqdn.text)

theorem asked_beside {fqdn : Hostname} {lines : List Text} (h : ∀ l ∈ lines, Beside fqdn l) :
    asked fqdn lines = [] := by
  apply List.filter_eq_nil_iff.mpr
  intro l hl hfound
  obtain ⟨hl, hcomment⟩ := List.mem_filter.mp hl
  rcases (h l hl).2 with hin | hnot
  · simp [hin] at hcomment
  · rw [hnot] at hfound
    cases hfound

theorem recordOf_unlines {fqdn : Hostname} {lines : List Text} (h : ∀ l ∈ lines, '\n' ∉ l) :
    recordOf fqdn.text (Text.unlines lines) = substituted (asked fqdn lines) := by
  rw [recordOf, Text.lines_unlines h, List.map_map]
  have hchomp : lines.map (Text.chomp ∘ fun l => l ++ ['\n']) = lines :=
    List.map_id'' (fun l => Text.chomp_append l) lines
  rw [hchomp, asked]

theorem recordOf_none {fqdn : Hostname} {lines : List Text} (h : ∀ l ∈ lines, Beside fqdn l) :
    recordOf fqdn.text (Text.unlines lines) = [] := by
  rw [recordOf_unlines fun l hl => (h l hl).1, asked_beside h]
  rfl

theorem substituted_singleton {line : Text} (h : '\n' ∉ line) : substituted [line] = line := by
  have hunlines : Text.unlines [line] = line ++ ['\n'] := by simp [Text.unlines]
  rw [substituted, hunlines, List.rdropWhile_concat_pos _ _ _ rfl]
  apply List.rdropWhile_eq_self_iff.mpr
  intro hne hlast
  rw [beq_iff_eq] at hlast
  exact h (hlast ▸ List.getLast_mem hne)

theorem recordOf_some {fqdn target : Hostname} {ttl : Lifetime} {above below : List Text}
    {line : Text} (habove : ∀ l ∈ above, Beside fqdn l) (h : IsRecordLine fqdn ttl target line)
    (hbelow : ∀ l ∈ below, Beside fqdn l) :
    recordOf fqdn.text (Text.unlines (above ++ line :: below)) = line := by
  have hlines : ∀ l ∈ above ++ line :: below, '\n' ∉ l := by
    intro l hl
    rcases List.mem_append.mp hl with hl | hl
    · exact (habove l hl).1
    · rcases List.mem_cons.mp hl with rfl | hl
      · exact h.no_newline
      · exact (hbelow l hl).1
  have hasked : asked fqdn (above ++ line :: below)
      = asked fqdn above ++ line :: asked fqdn below := by
    simp [asked, h.found, h.no_comment]
  rw [recordOf_unlines hlines, hasked, asked_beside habove, asked_beside hbelow, List.nil_append]
  exact substituted_singleton h.no_newline

section Parts

variable {matching : Text → List Text}

@[simp] theorem part_nil (n : Nat) : part matching n [] = [] := by
  simp [part, cutField]

theorem part_record {fqdn target : Hostname} {ttl : Lifetime} {line : Text}
    (h : IsRecordLine fqdn ttl target line) (n : Nat) :
    part matching n line = ([fqdn.text ++ ['.'], ttl.text, "IN".toList, "CNAME".toList,
      target.text ++ ['.']] : List Text).getD (n - 1) [] := by
  have hplain : ∀ w ∈ awkFields line, PlainName w := by
    rw [h.fields]
    have hin : PlainName "IN".toList := by simp [PlainName, isNameChar]
    have hcname : PlainName "CNAME".toList := by simp [PlainName, isNameChar]
    simp only [List.forall_mem_cons]
    exact ⟨fqdn.plain.rooted, ttl.plain, hin, hcname, target.plain.rooted,
      List.forall_mem_nil _⟩
  rw [part, Expand.unquoted_words fun w hw => (hplain w hw).not_pattern]
  rw [h.fields] at hplain ⊢
  exact Fields.cutField_between fun w hw => (hplain w hw).not_mem rfl

end Parts

/-! ## The outcome -/

/-- What is asked of Route 53. -/
def batch (fqdn : Hostname) (held : Option (Lifetime × Hostname)) (ec2Name : Hostname) :
    List Change :=
  (held.map fun r => Change.delete fqdn.text r.1.text r.2.text).toList ++
    [.create fqdn.text newTTL ec2Name.text]

/-- The request, given the record that there is. -/
def request (fqdn : Hostname) (held : Option (Lifetime × Hostname)) (ec2Name : Hostname) : Text :=
  preamble fqdn.text ++
    (held.map fun r => changeText "DELETE".toList fqdn.text r.1.text r.2.text).getD [] ++
    changeText "CREATE".toList fqdn.text newTTL ec2Name.text ++ closing

variable (matching : Text → List Text)

/-- **The script posts its request exactly when the zone does not hold the alias yet**, and the
request is about the record that the zone holds. -/
theorem updateCname_eq {authServer answer : Text} (hserver : authServer ≠ []) {fqdn : Hostname}
    {held : Option (Lifetime × Hostname)} (h : IsAnswer fqdn held answer) (ec2Name : Hostname) :
    updateCname matching authServer answer fqdn.text ec2Name.text =
      if held.map (fun r => r.2.text) = some ec2Name.text then .unchanged
      else .posted (request fqdn held ec2Name) := by
  rw [updateCname, if_neg hserver]
  cases h with
  | none h =>
    have hne : ([] : Text) ≠ ec2Name.text := fun heq => ec2Name.ne_nil heq.symm
    simp [recordOf_none h, hne, request]
  | @some above below line ttl target habove h hbelow =>
    have hname : part matching 5 line = target.text ++ ['.'] := part_record h 5
    have htype : part matching 4 line = "CNAME".toList := part_record h 4
    have httl : part matching 2 line = ttl.text := part_record h 2
    simp [recordOf_some habove h hbelow, hname, htype, httl, target.ne_nil, request]

/-! ## The request is read -/

def changeChunks (action fqdn ttl value : Text) : List Chunk :=
  ⟨"Change".toList, []⟩ :: (Xml.leafChunks "Action".toList action ++
    ⟨"ResourceRecordSet".toList, []⟩ :: (Xml.leafChunks "Name".toList (fqdn ++ ['.']) ++
    (Xml.leafChunks "Type".toList "CNAME".toList ++ (Xml.leafChunks "TTL".toList ttl ++
    ⟨"ResourceRecords".toList, []⟩ :: ⟨"ResourceRecord".toList, []⟩ ::
    (Xml.leafChunks "Value".toList value ++
    [⟨"/ResourceRecord".toList, []⟩, ⟨"/ResourceRecords".toList, []⟩,
      ⟨"/ResourceRecordSet".toList, []⟩, ⟨"/Change".toList, []⟩])))))

set_option maxRecDepth 4000 in
theorem changeText_eq (action fqdn ttl value : Text) :
    changeText action fqdn ttl value = Xml.render (changeChunks action fqdn ttl value) := by
  unfold changeText changeChunks Xml.leafChunks
  simp only [Text.toList_eq rfl, Xml.render, Chunk.render, List.flatMap_cons, List.flatMap_nil,
    List.append_assoc, List.cons_append, List.nil_append, List.append_nil]

def preambleChunks (fqdn : Text) : List Chunk :=
  ⟨declaration, []⟩ :: ⟨requestTag, []⟩ :: ⟨"ChangeBatch".toList, []⟩ ::
    (Xml.leafChunks "Comment".toList ("Update ".toList ++ fqdn) ++ [⟨"Changes".toList, []⟩])

def closingChunks : List Chunk :=
  [⟨"/Changes".toList, []⟩, ⟨"/ChangeBatch".toList, []⟩,
    ⟨"/ChangeResourceRecordSetsRequest".toList, []⟩]

set_option maxRecDepth 4000 in
theorem preamble_eq (fqdn : Text) : preamble fqdn = Xml.render (preambleChunks fqdn) := by
  unfold preamble preambleChunks Xml.leafChunks declaration requestTag
  simp only [Text.toList_eq rfl, Xml.render, Chunk.render, List.flatMap_cons, List.flatMap_nil,
    List.cons_append, List.nil_append, List.append_nil]

set_option maxRecDepth 4000 in
theorem closing_eq : closing = Xml.render closingChunks := by
  unfold closing closingChunks
  simp only [Text.toList_eq rfl, Xml.render, Chunk.render, List.flatMap_cons, List.flatMap_nil,
    List.cons_append, List.nil_append]

/-- What a change says in a request. -/
def Change.chunks : Change → List Chunk
  | .delete name ttl value => changeChunks "DELETE".toList name ttl value
  | .create name ttl value => changeChunks "CREATE".toList name ttl value

def requestChunks (fqdn : Text) (changes : List Change) : List Chunk :=
  preambleChunks fqdn ++ changes.flatMap Change.chunks ++ closingChunks

theorem request_eq (fqdn : Hostname) (held : Option (Lifetime × Hostname)) (ec2Name : Hostname) :
    request fqdn held ec2Name =
      Xml.render (requestChunks fqdn.text (batch fqdn held ec2Name)) := by
  cases held with
  | none =>
    simp [request, requestChunks, batch, Change.chunks, preamble_eq, closing_eq, changeText_eq,
      Xml.render]
  | some r =>
    simp [request, requestChunks, batch, Change.chunks, preamble_eq, closing_eq, changeText_eq,
      Xml.render]

theorem unrooted_rooted (name : Text) : unrooted (name ++ ['.']) = name := by
  simp [unrooted]

theorem changeOf_delete (name ttl value : Text) :
    changeOf "DELETE".toList (name ++ ['.']) ttl value = some (.delete name ttl value) := by
  rw [changeOf, if_pos rfl, unrooted_rooted]

theorem changeOf_create (name ttl value : Text) :
    changeOf "CREATE".toList (name ++ ['.']) ttl value = some (.create name ttl value) := by
  have hne : "CREATE".toList ≠ "DELETE".toList := by decide
  rw [changeOf, if_neg hne, if_pos rfl, unrooted_rooted]

theorem readChange_changeChunks (action name ttl value : Text) (rest : List Chunk) :
    readChange (changeChunks action name ttl value ++ rest) =
      (changeOf action (name ++ ['.']) ttl value).map fun change => (change, rest) := by
  unfold changeChunks readChange
  simp only [List.cons_append, List.append_assoc, List.nil_append, Xml.enter_cons, Xml.leaf_append,
    Option.bind_eq_bind, Option.bind_some, if_true]
  cases changeOf action (name ++ ['.']) ttl value <;> rfl

theorem readChange_chunks (change : Change) (rest : List Chunk) :
    readChange (change.chunks ++ rest) = some (change, rest) := by
  cases change with
  | delete name ttl value =>
    rw [Change.chunks, readChange_changeChunks, changeOf_delete]
    rfl
  | create name ttl value =>
    rw [Change.chunks, readChange_changeChunks, changeOf_create]
    rfl

theorem enter_chunks (change : Change) (rest : List Chunk) :
    Xml.enter "/Changes".toList (change.chunks ++ rest) = none := by
  have hne : (⟨"Change".toList, []⟩ : Chunk) ≠ ⟨"/Changes".toList, []⟩ := by decide
  have hnone : ∀ action name ttl value,
      Xml.enter "/Changes".toList (changeChunks action name ttl value ++ rest) = none := by
    intro action name ttl value
    unfold changeChunks
    rw [List.cons_append, Xml.enter, if_neg hne]
  cases change with
  | delete name ttl value => exact hnone _ _ _ _
  | create name ttl value => exact hnone _ _ _ _

theorem readChanges_chunks (rest : List Chunk) : ∀ (changes : List Change) (fuel : Nat),
    changes.length < fuel →
    readChanges fuel (changes.flatMap Change.chunks ++ ⟨"/Changes".toList, []⟩ :: rest)
      = some (changes, rest) := by
  intro changes
  induction changes with
  | nil =>
    intro fuel hfuel
    cases fuel with
    | zero => simp at hfuel
    | succ fuel => simp only [List.flatMap_nil, List.nil_append, readChanges, Xml.enter_cons]
  | cons change changes ih =>
    intro fuel hfuel
    cases fuel with
    | zero => simp at hfuel
    | succ fuel =>
      have hrest := ih fuel (by simpa using hfuel)
      rw [List.flatMap_cons, List.append_assoc, readChanges, enter_chunks]
      simp only [readChange_chunks, hrest, Option.bind_eq_bind, Option.bind_some]

/-! ### Nothing is cut in two -/

theorem changeChunks_whole {action name ttl value : Text} (haction : '<' ∉ action)
    (hname : PlainName name) (httl : PlainName ttl) (hvalue : PlainName value) :
    ∀ c ∈ changeChunks action name ttl value, c.Whole := by
  have hopen : ∀ s, PlainName s → '<' ∉ s := fun s h => h.not_mem rfl
  unfold changeChunks
  simp only [List.forall_mem_cons, List.forall_mem_append]
  refine ⟨by decide, Xml.leafChunks_whole (by decide) haction, by decide,
    Xml.leafChunks_whole (by decide) (hopen _ hname.rooted), by decide,
    Xml.leafChunks_whole (by decide) (hopen _ httl), by decide, by decide,
    Xml.leafChunks_whole (by decide) (hopen _ hvalue), by decide⟩

theorem newTTL_plain : PlainName newTTL := by simp [PlainName, newTTL, isNameChar]

theorem batch_whole (fqdn : Hostname) (held : Option (Lifetime × Hostname)) (ec2Name : Hostname) :
    ∀ change ∈ batch fqdn held ec2Name, ∀ c ∈ change.chunks, c.Whole := by
  intro change hchange
  rcases List.mem_append.mp hchange with hdelete | hcreate
  · simp only [Option.mem_toList, Option.map_eq_some_iff] at hdelete
    obtain ⟨r, -, rfl⟩ := hdelete
    exact changeChunks_whole (by decide) fqdn.plain r.1.plain r.2.plain
  · rw [List.mem_singleton.mp hcreate]
    exact changeChunks_whole (by decide) fqdn.plain newTTL_plain ec2Name.plain

theorem requestChunks_whole (fqdn : Hostname) {changes : List Change}
    (h : ∀ change ∈ changes, ∀ c ∈ change.chunks, c.Whole) :
    ∀ c ∈ requestChunks fqdn.text changes, c.Whole := by
  have hcomment : '<' ∉ "Update ".toList ++ fqdn.text := by
    have hfqdn := fqdn.plain.not_mem (c := '<') rfl
    simp [hfqdn]
  unfold requestChunks preambleChunks
  simp only [List.forall_mem_append, List.forall_mem_cons, List.forall_mem_flatMap]
  exact ⟨⟨⟨by decide, by decide, by decide, Xml.leafChunks_whole (by decide) hcomment, by decide⟩,
    h⟩, by decide⟩

theorem length_le_chunks (changes : List Change) :
    changes.length ≤ (changes.flatMap Change.chunks).length := by
  induction changes with
  | nil => simp
  | cons change changes ih =>
    have hone : 1 ≤ change.chunks.length := by
      cases change <;> simp [Change.chunks, changeChunks]
    rw [List.flatMap_cons, List.length_append, List.length_cons]
    omega

/-- **The request says what it is meant to say**: the record that is there is to go, and the new one
is to come. -/
theorem request_read (fqdn : Hostname) (held : Option (Lifetime × Hostname)) (ec2Name : Hostname) :
    readRequest (request fqdn held ec2Name) = some (batch fqdn held ec2Name) := by
  rw [request_eq, readRequest, Xml.chunks_render (requestChunks_whole fqdn (batch_whole _ _ _))]
  unfold requestChunks preambleChunks closingChunks
  simp only [List.cons_append, List.append_assoc, List.nil_append, Xml.enter_cons, Xml.leaf_append,
    Option.bind_eq_bind, Option.bind_some]
  rw [readChanges_chunks]
  · simp only [Option.bind_some, Xml.enter_cons, if_true]
  · have := length_le_chunks (batch fqdn held ec2Name)
    rw [List.length_append, List.length_cons]
    omega

/-! ## What becomes of the zone -/

/-- The zone holds this record of the name. -/
def Zone.Holds (z : Zone) (fqdn : Hostname) (held : Option (Lifetime × Hostname)) : Prop :=
  z.cname fqdn.text = held.map fun r => (r.1.text, r.2.text)

/-- The request is about the zone as it is, and is accepted. -/
theorem changeAll_batch {z : Zone} {fqdn : Hostname} {held : Option (Lifetime × Hostname)}
    (h : z.Holds fqdn held) (hfree : z.taken fqdn.text = false) (ec2Name : Hostname) :
    z.changeAll (batch fqdn held ec2Name)
      = some (z.set fqdn.text (some (newTTL, ec2Name.text))) := by
  cases held with
  | none =>
    have hnone : z.cname fqdn.text = none := h
    simp [batch, Zone.changeAll, Zone.change, hnone, hfree]
  | some r =>
    have hsome : z.cname fqdn.text = some (r.1.text, r.2.text) := h
    simp [batch, Zone.changeAll, Zone.change, hsome, hfree, Zone.set_set]

/-- The record that an answer shows is there already. -/
def Already (held : Option (Lifetime × Hostname)) (ec2Name : Hostname) : Prop :=
  held.map (fun r => r.2.text) = some ec2Name.text

theorem receive_updateCname (s : Route53) {z : Zone} {authServer answer : Text}
    (hserver : authServer ≠ []) {fqdn : Hostname} {held : Option (Lifetime × Hostname)}
    (h : IsAnswer fqdn held answer) (hz : z.Holds fqdn held)
    (hfree : z.taken fqdn.text = false) (ec2Name : Hostname) :
    (Already held ec2Name ∧
        s.receive z (updateCname matching authServer answer fqdn.text ec2Name.text) = z) ∨
      s.receive z (updateCname matching authServer answer fqdn.text ec2Name.text) =
        z.set fqdn.text (some (newTTL, ec2Name.text)) := by
  rw [updateCname_eq matching hserver h]
  split
  · rename_i halready
    exact Or.inl ⟨halready, rfl⟩
  · right
    rw [Route53.receive, request_read, Option.map_some, Option.getD_some]
    exact s.accepts _ _ _ (changeAll_batch hz hfree ec2Name)

/-- **After the script has run the name is an alias of the instance and no other name has changed**;
when the script runs again it finds nothing to do, and what it posts says what it is meant to
say. -/
theorem registered (s : Route53) {z : Zone} {authServer answer : Text} (hserver : authServer ≠ [])
    {fqdn : Hostname} {held : Option (Lifetime × Hostname)} (h : IsAnswer fqdn held answer)
    (hz : z.Holds fqdn held) (hfree : z.taken fqdn.text = false) (ec2Name : Hostname) :
    let z' := s.receive z (updateCname matching authServer answer fqdn.text ec2Name.text)
    (z'.cname fqdn.text).map Prod.snd = some ec2Name.text ∧
      (∀ other, other ≠ fqdn.text → z'.cname other = z.cname other) ∧ z'.taken = z.taken ∧
      (∀ {held' : Option (Lifetime × Hostname)} {again : Text}, z'.Holds fqdn held' →
        IsAnswer fqdn held' again →
        updateCname matching authServer again fqdn.text ec2Name.text = .unchanged) ∧
      ∀ changeset, updateCname matching authServer answer fqdn.text ec2Name.text =
        .posted changeset → readRequest changeset = some (batch fqdn held ec2Name) := by
  intro z'
  have hname : (z'.cname fqdn.text).map Prod.snd = some ec2Name.text := by
    rcases receive_updateCname matching s hserver h hz hfree ec2Name with ⟨halready, heq⟩ | heq
    · have hheld : z'.cname fqdn.text = held.map fun r => (r.1.text, r.2.text) := by
        rw [show z' = z from heq]
        exact hz
      rw [hheld, Option.map_map]
      exact halready
    · rw [show z' = _ from heq, Zone.set_same]
      rfl
  refine ⟨hname, ?_, ?_, ?_, ?_⟩
  · intro other hother
    rcases receive_updateCname matching s hserver h hz hfree ec2Name with ⟨-, heq⟩ | heq
    · rw [show z' = z from heq]
    · rw [show z' = _ from heq, z.set_other _ hother]
  · rcases receive_updateCname matching s hserver h hz hfree ec2Name with ⟨-, heq⟩ | heq
    · rw [show z' = z from heq]
    · rw [show z' = _ from heq, Zone.set_taken]
  · intro held' again hz' hagain
    rw [updateCname_eq matching hserver hagain, if_pos]
    rw [hz', Option.map_map] at hname
    exact hname
  · intro changeset hposted
    rw [updateCname_eq matching hserver h] at hposted
    split at hposted
    · cases hposted
    · cases hposted
      exact request_read fqdn held ec2Name

/-! ### One registration -/

/-- A service that does what is documented and nothing else. -/
def plainRoute53 : Route53 where
  submit z changes := (z.changeAll changes).getD z
  accepts z changes z' h := by rw [h]; rfl
  refuses z changes h := by rw [h]; rfl

def webName : Hostname := ⟨"web.ots.org".toList, by decide, by simp [PlainName, isNameChar]⟩

def oldInstance : Hostname := ⟨"ec2-1.aws.com".toList, by decide, by simp [PlainName, isNameChar]⟩

def newInstance : Hostname := ⟨"ec2-2.aws.com".toList, by decide, by simp [PlainName, isNameChar]⟩

def minute : Lifetime := ⟨"60".toList, by decide, by simp [Text.isDigit]⟩

def webZone : Zone := ⟨fun name => if name = webName.text then some (minute.text, oldInstance.text)
  else none, fun _ => false⟩

def webLine : Text := "web.ots.org.\t\t60\tIN\tCNAME\tec2-1.aws.com.".toList

theorem webLine_record : IsRecordLine webName minute oldInstance webLine where
  starts := by decide
  no_newline := by decide
  no_comment := by decide
  fields := by decide

theorem webAnswer : IsAnswer webName (some (minute, oldInstance))
    (Text.unlines (["; <<>> DiG".toList] ++ webLine :: [])) := by
  have hcomment : Beside webName "; <<>> DiG".toList := ⟨by decide, Or.inl (by decide)⟩
  exact .some (by simpa using hcomment) webLine_record (by simp)

theorem webZone_holds : webZone.Holds webName (some (minute, oldInstance)) := by
  dsimp only [Zone.Holds, webZone]
  rw [if_pos rfl, Option.map_some]

theorem registered_web :
    let z' := plainRoute53.receive webZone (updateCname (fun _ => []) "ns".toList
      (Text.unlines (["; <<>> DiG".toList] ++ webLine :: [])) webName.text newInstance.text)
    (z'.cname webName.text).map Prod.snd = some newInstance.text ∧
      (∀ other, other ≠ webName.text → z'.cname other = webZone.cname other) ∧
      z'.taken = webZone.taken ∧
      (∀ {held' : Option (Lifetime × Hostname)} {again : Text}, z'.Holds webName held' →
        IsAnswer webName held' again →
        updateCname (fun _ => []) "ns".toList again webName.text newInstance.text = .unchanged) ∧
      ∀ changeset, updateCname (fun _ => []) "ns".toList (Text.unlines (["; <<>> DiG".toList] ++
        webLine :: [])) webName.text newInstance.text = .posted changeset →
        readRequest changeset = some (batch webName (some (minute, oldInstance)) newInstance) :=
  registered (fun _ => []) plainRoute53 (by decide) webAnswer webZone_holds rfl newInstance

/-- Told the names that an instance has, the second script does what the first does there. -/
theorem createInstance_same (a : Answers) {ec2Name fqdn : Text} (hne : ec2Name ≠ [])
    (hfqdn : fqdn ≠ []) (hpublic : a.publicHostname = ec2Name)
    (htag : nameTag (a.describe ec2Name) = fqdn) :
    createInstanceUpdateRoute53Cname matching a ec2Name fqdn = updateRoute53Cname matching a := by
  rw [createInstanceUpdateRoute53Cname, updateRoute53Cname, if_neg hne, if_neg hfqdn, hpublic, htag]

end Dns
end TdsAdmin
