import TdsAdmin.Autoscale.Update

/-!
# The servers in the configuration

`Config` is a configuration file as the script leaves one: a head that says nothing of instances,
the marker, and a line for each server that was added. The file that the edits make of such a file
is that of another one (`edit_text`), so that along a run the text stands for a pool of servers, to
which a launch adds one and from which a termination takes those of its instance
(`pool_replayed`).
-/

set_option autoImplicit false

namespace TdsAdmin
namespace Autoscale

open Fields (cutField)

/-! ## Identifiers -/

section Id

variable {id s : Text}

theorem isId_shape (h : isId id = true) :
    ∃ digits, id = 'i' :: '-' :: digits ∧ digits.length = 8 ∧ ∀ c ∈ digits, isHex c = true := by
  unfold isId at h
  split at h
  · rename_i digits
    simp only [Bool.and_eq_true, beq_iff_eq, List.all_eq_true] at h
    exact ⟨digits, rfl, h.1, h.2⟩
  · cases h

theorem isId_length (h : isId id = true) : id.length = 10 := by
  obtain ⟨digits, rfl, hlen, -⟩ := isId_shape h
  simp [hlen]

theorem isId_dash (h : isId id = true) : '-' ∈ id := by
  obtain ⟨digits, rfl, -, -⟩ := isId_shape h
  simp

theorem isId_i (h : isId id = true) : 'i' ∈ id := by
  obtain ⟨digits, rfl, -, -⟩ := isId_shape h
  simp

/-- A character that no identifier holds. -/
theorem isId_not_mem {c : Char} (h : isId id = true) (hi : c ≠ 'i') (hdash : c ≠ '-')
    (hhex : isHex c = false) : c ∉ id := by
  obtain ⟨digits, rfl, -, hdigits⟩ := isId_shape h
  intro hc
  simp only [List.mem_cons, hi, hdash, false_or] at hc
  rw [hdigits c hc] at hhex
  cases hhex

theorem isId_no_blank (h : isId id = true) : ' ' ∉ id :=
  isId_not_mem h (by decide) (by decide) (by decide)

theorem not_infix_of_holdsId (h : isId id = true) (hs : holdsId s = false) : ¬ id <:+: s := by
  rintro ⟨a, b, rfl⟩
  have hmem : id ++ b ∈ (a ++ id ++ b).tails := by simp [List.mem_tails]
  have hfound := List.any_eq_false.mp hs (id ++ b) hmem
  rw [← isId_length h, List.take_left] at hfound
  exact hfound h

/-- Nothing without a dash holds an identifier. -/
theorem not_infix_of_dash (h : isId id = true) (hs : '-' ∉ s) : ¬ id <:+: s :=
  fun hi => hs (hi.subset (isId_dash h))

theorem infix_id_iff {other : Text} (h : isId id = true) (ho : isId other = true) :
    id <:+: other ↔ id = other := by
  constructor
  · intro hi
    apply hi.eq_of_length
    rw [isId_length h, isId_length ho]
  · intro heq
    rw [heq]

end Id

/-- A text that lacks a character of every identifier holds none. -/
theorem not_holdsId_of {d : Char} (hd : ∀ id, isId id = true → d ∈ id) {s : Text} (h : d ∉ s) :
    holdsId s = false := by
  apply List.any_eq_false.mpr
  intro t ht hid
  have htail : t <:+ s := (List.mem_tails _ _).mp ht
  exact h (htail.subset (List.mem_of_mem_take (hd _ hid)))

/-! ## Names -/

/-- What a name must not hold if its line is to be read back. -/
def isNameChar (c : Char) : Bool := c != ' ' && c != '\n' && c != '#'

theorem isNameChar_of {p : Char → Bool} (hblank : p ' ' = false) (hnewline : p '\n' = false)
    (hhash : p '#' = false) {c : Char} (h : p c = true) : isNameChar c = true := by
  by_cases hc : c = ' ' ∨ c = '\n' ∨ c = '#'
  · rcases hc with rfl | rfl | rfl <;> simp_all
  · simpa [isNameChar, and_assoc, not_or] using hc

/-- A name that is counted up can be read back, and holds no instance. -/
theorem increment_plain (numeric : Odometer.Numeric) (s : Text) :
    (Odometer.increment numeric s).all isNameChar = true ∧
      holdsId (Odometer.increment numeric s) = false := by
  rcases Odometer.wheels_or_number numeric s with hwheels | hnumber
  · constructor
    · apply List.all_eq_true.mpr
      intro c hc
      exact isNameChar_of (p := fun c => (Odometer.place c).isSome) rfl rfl rfl (hwheels c hc)
    · apply not_holdsId_of fun _ => isId_dash
      intro hdash
      exact absurd (hwheels _ hdash) (by decide)
  · constructor
    · apply List.all_eq_true.mpr
      intro c hc
      exact isNameChar_of (by decide) (by decide) (by decide) (List.all_eq_true.mp hnumber c hc)
    · apply not_holdsId_of fun _ => isId_i
      intro hi
      exact absurd (List.all_eq_true.mp hnumber _ hi) (by decide)

/-! ## Entries -/

/-- A server that the script has added. -/
structure Entry where
  app : Text
  host : Text
  id : Text
  app_plain : app.all isNameChar = true
  app_noId : holdsId app = false
  host_plain : host.all isHostChar = true
  host_noId : holdsId host = false
  id_isId : isId id = true

namespace Entry

variable (e : Entry)

def line : Text := serverLine e.app e.host e.id

/-- The words of the line, with a blank between them. -/
def words : List Text :=
  [[], [], [], [], "server".toList, e.app, e.host ++ ":8080".toList, "check".toList, "#".toList,
    e.id]

theorem line_eq : e.line = [' '].intercalate e.words := by
  unfold line serverLine words
  simp only [Text.toList_eq rfl, List.intercalate_cons_cons, List.intercalate_singleton,
    List.append_assoc, List.cons_append, List.nil_append]

theorem host_not_mem {c : Char} (hc : isHostChar c = false) : c ∉ e.host := by
  intro hmem
  rw [List.all_eq_true.mp e.host_plain c hmem] at hc
  cases hc

theorem app_not_mem {c : Char} (hc : isNameChar c = false) : c ∉ e.app := by
  intro hmem
  rw [List.all_eq_true.mp e.app_plain c hmem] at hc
  cases hc

/-- The words that are the same in every line. -/
def fixedWords : List Text := [[], "server".toList, "check".toList, "#".toList]

/-- The others are the name, the address with its port and the identifier. -/
theorem mem_words {w : Text} : w ∈ e.words ↔
    w ∈ fixedWords ∨ w = e.app ∨ w = e.host ++ ":8080".toList ∨ w = e.id := by
  simp only [words, fixedWords, List.mem_cons, List.not_mem_nil, or_false]
  tauto

/-- A word of a line holds neither a blank nor a newline. -/
theorem words_whole {c : Char} (hc : c = ' ' ∨ c = '\n') : ∀ w ∈ e.words, c ∉ w := by
  have hfixed : ∀ w ∈ fixedWords, ' ' ∉ w ∧ '\n' ∉ w := by decide
  have happ : isNameChar ' ' = false ∧ isNameChar '\n' = false := by decide
  have hhost : isHostChar ' ' = false ∧ isHostChar '\n' = false := by decide
  intro w hw
  rcases e.mem_words.mp hw with hw | rfl | rfl | rfl
  · rcases hc with rfl | rfl
    · exact (hfixed w hw).1
    · exact (hfixed w hw).2
  · rcases hc with rfl | rfl
    · exact e.app_not_mem happ.1
    · exact e.app_not_mem happ.2
  · rcases hc with rfl | rfl
    · simpa using e.host_not_mem hhost.1
    · simpa using e.host_not_mem hhost.2
  · rcases hc with rfl | rfl
    · exact isId_no_blank e.id_isId
    · exact isId_not_mem e.id_isId (by decide) (by decide) (by decide)

theorem newline_not_mem_line : '\n' ∉ e.line := by
  intro h
  rw [line_eq] at h
  rcases Fields.mem_intercalate h with h | ⟨w, hw, h⟩
  · exact absurd h (by decide)
  · exact e.words_whole (Or.inr rfl) w hw h

/-- The line of a server says nothing of another instance. -/
theorem has_id_line {id : Text} (h : isId id = true) :
    Text.has id e.line = true ↔ id = e.id := by
  rw [Text.has_iff, line_eq,
    Fields.infix_intercalate (isId_no_blank h) (by simp [words])]
  -- an identifier has no colon, so it does not reach from the host over the port
  have hport : ¬ id <:+: e.host ++ ":8080".toList := by
    have hcolon : ':' ∉ id := isId_not_mem h (by decide) (by decide) (by decide)
    have hlit : ":8080".toList = ':' :: "8080".toList := rfl
    rw [hlit, Text.infix_across hcolon]
    rintro (hhost | hlast)
    · exact not_infix_of_holdsId h e.host_noId hhost
    · exact not_infix_of_dash h (by decide) hlast
  constructor
  · rintro ⟨w, hw, hin⟩
    rcases e.mem_words.mp hw with hw | rfl | rfl | rfl
    · have hdash : ∀ w ∈ fixedWords, '-' ∉ w := by decide
      exact absurd hin (not_infix_of_dash h (hdash w hw))
    · exact absurd hin (not_infix_of_holdsId h e.app_noId)
    · exact absurd hin hport
    · exact (infix_id_iff h e.id_isId).mp hin
  · intro heq
    refine ⟨e.id, by simp [words], ?_⟩
    rw [heq]

theorem has_server_line : Text.has "server".toList e.line = true := by
  rw [Text.has_iff, line_eq, Fields.infix_intercalate (by decide) (by simp [words])]
  exact ⟨"server".toList, by simp [words], List.infix_rfl⟩

/-- The only `#` of a line stands in front of an identifier. -/
theorem marker_not_infix_line : ¬ marker <:+: e.line := by
  have hsplit : e.line = ("    server ".toList ++ e.app ++ ' ' :: (e.host ++ ":8080 check ".toList))
      ++ '#' :: ' ' :: e.id := by
    unfold line serverLine
    simp only [Text.toList_eq rfl, List.append_assoc, List.cons_append, List.nil_append]
  have happ : '#' ∉ e.app := e.app_not_mem (by decide)
  have hhost : '#' ∉ e.host := e.host_not_mem (by decide)
  have hfront : '#' ∉ "    server ".toList ++ e.app
      ++ ' ' :: (e.host ++ ":8080 check ".toList) := by
    have hlead : '#' ∉ "    server ".toList := by decide
    have htail : '#' ∉ ":8080 check ".toList := by decide
    simp only [List.mem_append, List.mem_cons, not_or]
    exact ⟨⟨hlead, happ⟩, by decide, hhost, htail⟩
  have hback : '#' ∉ ' ' :: e.id := by
    have hid : '#' ∉ e.id := isId_not_mem e.id_isId (by decide) (by decide) (by decide)
    simpa using hid
  have hmarker : marker = '#' :: " Begin".toList := rfl
  rw [hsplit, hmarker, Text.infix_at_head hfront hback]
  obtain ⟨digits, hid, -, -⟩ := isId_shape e.id_isId
  have hlit : " Begin".toList = ' ' :: 'B' :: "egin".toList := rfl
  rw [hid, hlit, List.cons_prefix_cons, List.cons_prefix_cons]
  simp

/-- `cut -f6 -d' '` finds the name. -/
theorem cutField_line : cutField 6 e.line = e.app := by
  have hwhole := e.words_whole (Or.inl rfl)
  rw [words] at hwhole
  rw [line_eq, words, Fields.cutField_between hwhole]
  rfl

end Entry

/-! ## Configurations -/

structure Config where
  /-- The lines above the marker. -/
  head : List Text
  entries : List Entry
  head_lines : ∀ l ∈ head, '\n' ∉ l ∧ ¬ marker <:+: l ∧ holdsId l = false

/-- What the script is there to keep: for every server its private name and its instance. -/
abbrev Pool := List (Text × Text)

namespace Config

variable (c : Config)

def lines : List Text := c.head ++ marker :: c.entries.map Entry.line

def text : Text := Text.unlines c.lines

def apps : List Text := c.entries.map Entry.app

def pool : Pool := c.entries.map fun e => (e.host, e.id)

def withEntries (entries : List Entry) : Config := { c with entries := entries }

theorem newline_not_mem_lines : ∀ l ∈ c.lines, '\n' ∉ l := by
  intro l hl
  rw [lines, List.mem_append, List.mem_cons, List.mem_map] at hl
  rcases hl with hl | rfl | ⟨e, -, rfl⟩
  · exact (c.head_lines l hl).1
  · decide
  · exact e.newline_not_mem_line

theorem lines_text : (Text.lines c.text).map Text.chomp = c.lines := by
  rw [text, Text.lines_unlines c.newline_not_mem_lines, List.map_map]
  conv_rhs => rw [← List.map_id c.lines]
  apply List.map_congr_left
  intro l _
  exact Text.chomp_append l

/-! ### Reading the names -/

theorem grepAfter_head {n : Nat} {above rest : List Text}
    (h : ∀ l ∈ above, ¬ marker <:+: l) :
    grepAfter marker n 0 (above ++ rest) = grepAfter marker n 0 rest := by
  induction above with
  | nil => rfl
  | cons l above ih =>
    obtain ⟨hl, habove⟩ := List.forall_mem_cons.mp h
    rw [List.cons_append, grepAfter, Text.has_eq_false.mpr hl]
    exact ih habove

theorem grepAfter_below {n r : Nat} {below : List Text} (h : ∀ l ∈ below, ¬ marker <:+: l) :
    grepAfter marker n r below = below.take r := by
  induction below generalizing r with
  | nil => cases r <;> rfl
  | cons l below ih =>
    obtain ⟨hl, hbelow⟩ := List.forall_mem_cons.mp h
    have hnot : Text.has marker l = false := Text.has_eq_false.mpr hl
    cases r with
    | zero => simp [grepAfter, hnot, ih hbelow]
    | succ r => simp [grepAfter, hnot, ih hbelow]

/-- What `grep` shows are the lines of the servers, up to a thousand. -/
theorem shown_lines : (grepAfter marker 1000 0 ((Text.lines c.text).map Text.chomp)).filter
    (Text.has "server".toList) = (c.entries.take 1000).map Entry.line := by
  have habove : ∀ l ∈ c.head, ¬ marker <:+: l := fun l hl => (c.head_lines l hl).2.1
  have hbelow : ∀ l ∈ c.entries.map Entry.line, ¬ marker <:+: l := by
    intro l hl
    obtain ⟨e, -, rfl⟩ := List.mem_map.mp hl
    exact e.marker_not_infix_line
  have hmark : Text.has marker marker = true := by decide
  have hserver : Text.has "server".toList marker = false := by decide
  rw [lines_text, lines, grepAfter_head habove, grepAfter, if_pos hmark, grepAfter_below hbelow,
    List.filter_cons_of_neg (by rw [hserver]; exact Bool.false_ne_true), ← List.map_take]
  apply List.filter_eq_self.mpr
  intro l hl
  obtain ⟨e, -, rfl⟩ := List.mem_map.mp hl
  exact e.has_server_line

theorem lastApp_text : lastApp c.text =
    ((((c.entries.take 1000).map Entry.line).insertionSort (· ≤ ·)).map (cutField 6)).getLast?.getD
      [] := by
  unfold lastApp
  rw [shown_lines]

/-! ### The edits -/

variable {numeric : Odometer.Numeric}

theorem addServer_text (e : Entry) (happ : e.app = nextApp numeric c.text) :
    addServer numeric c.text e.host e.id = (c.withEntries (c.entries ++ [e])).text := by
  have hline : serverLine (nextApp numeric c.text) e.host e.id = e.line := by
    rw [← happ]
    rfl
  rw [addServer, hline]
  simp [text, lines, withEntries, Text.unlines]

theorem removeServer_text {id : Text} (h : isId id = true) :
    removeServer c.text id = (c.withEntries (c.entries.filter fun e => e.id ≠ id)).text := by
  have hkeep : ∀ l ∈ c.head ++ [marker], (!Text.has id l) = true := by
    intro l hl
    rw [Bool.not_eq_true', Text.has_eq_false]
    rcases List.mem_append.mp hl with hl | hl
    · exact not_infix_of_holdsId h (c.head_lines l hl).2.2
    · rw [List.mem_singleton.mp hl]
      exact not_infix_of_dash h (by decide)
  have hentries : (c.entries.map Entry.line).filter (fun l => !Text.has id l)
      = (c.entries.filter fun e => e.id ≠ id).map Entry.line := by
    rw [List.filter_map]
    congr 1
    apply List.filter_congr
    intro e _
    simp only [Function.comp_apply, Bool.not_eq_eq_eq_not, ne_eq, decide_not]
    rw [Bool.eq_iff_iff, e.has_id_line h]
    simp [eq_comm]
  have hlines : c.lines.filter (fun l => !Text.has id l)
      = (c.withEntries (c.entries.filter fun e => e.id ≠ id)).lines := by
    have hcut : c.lines = (c.head ++ [marker]) ++ c.entries.map Entry.line := by simp [lines]
    rw [hcut, List.filter_append, List.filter_eq_self.mpr hkeep, hentries]
    simp [lines, withEntries]
  rw [removeServer, text, Text.lines_unlines c.newline_not_mem_lines, List.filter_map]
  have hcomp : ((fun l => !Text.has id (Text.chomp l)) ∘ fun l => l ++ ['\n'])
      = fun l => !Text.has id l := by
    funext l
    rw [Function.comp_apply, Text.chomp_append]
  rw [hcomp, hlines, text, Text.unlines, List.flatMap_def]

end Config

/-! ## What a message changes -/

inductive Change where
  | launched (host id : Text)
  | terminated (id : Text)
  deriving DecidableEq

def Change.apply (pool : Pool) : Change → Pool
  | .launched host id => pool ++ [(host, id)]
  | .terminated id => pool.filter fun server => server.2 ≠ id

def replay (pool : Pool) (changes : List Change) : Pool := changes.foldl Change.apply pool

def Action.change (host id : Text) : Action → Change
  | .launching => .launched host id
  | .terminating => .terminated id

/-- What a message comes to, given what EC2 says. -/
def changeOf (ec2 : Ec2) (body : Text) : Option Change :=
  (actionOf body).bind fun a =>
    (ec2.describe a.2).map fun reservations => a.1.change (pdnsName reservations) a.2

def changes (events : List Event) : List Change :=
  events.filterMap fun
    | .act m ec2 => changeOf ec2 m.body
    | _ => none

theorem pdnsName_host (reservations : List (List Host)) :
    (pdnsName reservations).all isHostChar = true ∧ holdsId (pdnsName reservations) = false := by
  unfold pdnsName
  -- without an instance the name is empty
  cases reservations.flatten.getLast? with
  | none => decide
  | some host => exact ⟨host.plain, host.noId⟩

/-- **One edit of the file is one change of the pool**, above which everything stays. -/
theorem edit_text {numeric : Odometer.Numeric} {c : Config} {ec2 : Ec2} {body file : Text}
    (h : handle numeric ec2 c.text body = .updated file) :
    ∃ change entries, changeOf ec2 body = some change ∧ file = (c.withEntries entries).text ∧
      (c.withEntries entries).pool = change.apply c.pool ∧
      match change with
      | .launched host id => ∃ e : Entry, e.app = nextApp numeric c.text ∧ e.host = host ∧
          e.id = id ∧ entries = c.entries ++ [e]
      | .terminated id => entries = c.entries.filter fun e => e.id ≠ id := by
  unfold handle at h
  cases hact : actionOf body with
  | none => rw [hact] at h; cases h
  | some a =>
    obtain ⟨action, id⟩ := a
    rw [hact] at h
    dsimp only at h
    cases hdesc : ec2.describe id with
    | none => rw [hdesc] at h; cases h
    | some reservations =>
      rw [hdesc] at h
      have hid : isId id = true := ec2.known id (by rw [hdesc]; rfl)
      have hchange : changeOf ec2 body = some (action.change (pdnsName reservations) id) := by
        simp [changeOf, hact, hdesc]
      -- the new name comes from the counter, the rest of the line from EC2
      cases action with
      | launching =>
        obtain ⟨hplain, hnoId⟩ := pdnsName_host reservations
        obtain ⟨happ, happId⟩ := increment_plain numeric
          (if lastApp c.text = [] then "app000".toList else lastApp c.text)
        let e : Entry := ⟨nextApp numeric c.text, pdnsName reservations, id, happ, happId, hplain,
          hnoId, hid⟩
        refine ⟨_, c.entries ++ [e], hchange, ?_, ?_, e, rfl, rfl, rfl, rfl⟩
        · rw [← c.addServer_text e rfl]
          exact (Outcome.updated.inj h).symm
        · simp [Config.pool, Config.withEntries, Action.change, Change.apply, e]
      | terminating =>
        refine ⟨_, _, hchange, ?_, ?_, rfl⟩
        · rw [← c.removeServer_text hid]
          exact (Outcome.updated.inj h).symm
        · simp [Config.pool, Config.withEntries, Action.change, Change.apply, List.filter_map,
            Function.comp_def]

theorem changes_append (events : List Event) (e : Event) :
    changes (events ++ [e]) = changes events ++ changes [e] := List.filterMap_append

theorem replay_append (pool : Pool) (first more : List Change) :
    replay pool (first ++ more) = replay (replay pool first) more := List.foldl_append

/-! ## Every run -/

/-- The file after these events is that of a configuration with the same head, whose pool is the
one that the changes make. -/
def Kept (c : Config) (events : List Event) (w : World) : Prop :=
  ∃ c' : Config, w.file = c'.text ∧ c'.head = c.head ∧ c'.pool = replay c.pool (changes events)

/-- An event that does not edit the file changes nothing. -/
theorem Kept.quiet {c : Config} {events : List Event} {e : Event} {w w' : World}
    (h : Kept c events w) (hfile : w'.file = w.file) (he : changes [e] = []) :
    Kept c (events ++ [e]) w' := by
  obtain ⟨c', hc', hhead, hpool⟩ := h
  refine ⟨c', hfile.trans hc', hhead, ?_⟩
  rw [changes_append, he, List.append_nil]
  exact hpool

theorem Kept.step {numeric : Odometer.Numeric} {c : Config} {events : List Event} {w w' : World}
    {e : Event} (h : Kept c events w) (hstep : Step numeric w e w') :
    Kept c (events ++ [e]) w' := by
  cases hstep with
  | publish m fresh => exact h.quiet rfl rfl
  | receive m hm hw => exact h.quiet rfl rfl
  | discard m hw hact => exact h.quiet rfl rfl
  | die m ec2 hw hdied => exact h.quiet rfl rfl
  | delete m hw => exact h.quiet rfl rfl
  | crash => exact h.quiet rfl rfl
  -- only this event touches the file
  | act m ec2 hw hedit =>
    obtain ⟨c', hc', hhead, hpool⟩ := h
    rw [hc'] at hedit
    obtain ⟨change, entries, hchange, hfile, hafter, -⟩ := edit_text hedit
    refine ⟨c'.withEntries entries, hfile, hhead, ?_⟩
    have hone : changes [.act m ec2] = [change] := by simp [changes, hchange]
    rw [changes_append, hone, replay_append, hafter, hpool]
    rfl

/-- **Whatever happens, the file holds the head it started with and exactly the servers that the
messages dealt with so far leave.** -/
theorem pool_replayed (numeric : Odometer.Numeric) (c : Config) {events : List Event} {w : World}
    (run : (system numeric c.text).Reaches events w) : Kept c events w := by
  apply run.invariant
  · intro s hs
    exact ⟨c, hs.2.2.2, rfl, rfl⟩
  · intro events s e t h hstep
    exact h.step hstep

/-! ### A run

Two instances are launched, the second of them in two turns, since the script is ended before it
has deleted the message, and the first one is terminated. -/

/-- What `++` makes of a text that begins with no number. -/
def afterNone : Odometer.Numeric := ⟨fun _ => "1".toList, fun _ => by decide⟩

/-- A configuration without servers. -/
def blank : Config := ⟨[], [], by simp⟩

def firstId : Text := "i-0a1b2c3d".toList

def secondId : Text := "i-0a1b2c3e".toList

def firstLaunch : Message :=
  ⟨0, "Launching a new EC2 instance\\\",\\\"EC2InstanceId\\\":\\\"i-0a1b2c3d\\\"".toList⟩

def secondLaunch : Message :=
  ⟨1, "Launching a new EC2 instance\\\",\\\"EC2InstanceId\\\":\\\"i-0a1b2c3e\\\"".toList⟩

def firstEnd : Message :=
  ⟨2, "Terminating EC2 instance\\\",\\\"EC2InstanceId\\\":\\\"i-0a1b2c3d\\\"".toList⟩

def firstHost : Host := ⟨"ip-10-0-0-1.ec2.internal".toList, by decide, by decide⟩

def secondHost : Host := ⟨"ip-10-0-0-2.ec2.internal".toList, by decide, by decide⟩

/-- An EC2 that knows one instance. -/
def knowing (id : Text) (h : isId id = true) (host : Host) : Ec2 where
  describe other := if other = id then some [[host]] else none
  known := by
    intro other hother
    split at hother
    · rename_i heq
      rw [heq]
      exact h
    · cases hother

def knowsFirst : Ec2 := knowing firstId (by decide) firstHost

def knowsSecond : Ec2 := knowing secondId (by decide) secondHost

def runEvents : List Event :=
  [.publish firstLaunch, .receive firstLaunch, .act firstLaunch knowsFirst, .delete firstLaunch,
    .publish secondLaunch, .receive secondLaunch, .act secondLaunch knowsSecond, .crash,
    .receive secondLaunch, .act secondLaunch knowsSecond, .delete secondLaunch,
    .publish firstEnd, .receive firstEnd, .act firstEnd knowsFirst]

def launchedFile : Text :=
  let one := addServer afterNone blank.text firstHost.text firstId
  addServer afterNone (addServer afterNone one secondHost.text secondId) secondHost.text secondId

def runWorld : World :=
  ⟨[firstLaunch, secondLaunch, firstEnd], [firstEnd], .acted firstEnd,
    removeServer launchedFile firstId⟩

theorem firstLaunch_action : actionOf firstLaunch.body = some (.launching, firstId) := by decide

theorem secondLaunch_action : actionOf secondLaunch.body = some (.launching, secondId) := by decide

theorem firstEnd_action : actionOf firstEnd.body = some (.terminating, firstId) := by decide

theorem knowing_describe (id : Text) (h : isId id = true) (host : Host) :
    (knowing id h host).describe id = some [[host]] := if_pos rfl

theorem firstLaunch_handled (file : Text) : handle afterNone knowsFirst file firstLaunch.body
    = .updated (addServer afterNone file firstHost.text firstId) := by
  simp [handle, firstLaunch_action, knowsFirst, knowing_describe, pdnsName]

theorem secondLaunch_handled (file : Text) : handle afterNone knowsSecond file secondLaunch.body
    = .updated (addServer afterNone file secondHost.text secondId) := by
  simp [handle, secondLaunch_action, knowsSecond, knowing_describe, pdnsName]

theorem firstEnd_handled (file : Text) : handle afterNone knowsFirst file firstEnd.body
    = .updated (removeServer file firstId) := by
  simp [handle, firstEnd_action, knowsFirst, knowing_describe]

theorem blank_start :
    (system afterNone blank.text).Reaches [] ⟨[], [], .waiting, blank.text⟩ :=
  .start ⟨rfl, List.nodup_nil, rfl, rfl⟩

theorem run_reaches : (system afterNone blank.text).Reaches runEvents runWorld := by
  have h := blank_start.step (Step.publish firstLaunch (by simp))
  have h := h.step (Step.receive firstLaunch (by simp) rfl)
  have h := h.step (Step.act firstLaunch knowsFirst rfl (firstLaunch_handled _))
  have h := h.step (Step.delete firstLaunch rfl)
  have h := h.step (Step.publish secondLaunch (by decide))
  have h := h.step (Step.receive secondLaunch (by simp) rfl)
  have h := h.step (Step.act secondLaunch knowsSecond rfl (secondLaunch_handled _))
  have h := h.step Step.crash
  have h := h.step (Step.receive secondLaunch (by simp) rfl)
  have h := h.step (Step.act secondLaunch knowsSecond rfl (secondLaunch_handled _))
  have h := h.step (Step.delete secondLaunch rfl)
  have h := h.step (Step.publish firstEnd (by decide))
  have h := h.step (Step.receive firstEnd (by simp) rfl)
  exact h.step (Step.act firstEnd knowsFirst rfl (firstEnd_handled _))

theorem changes_run : changes runEvents = [.launched firstHost.text firstId,
    .launched secondHost.text secondId, .launched secondHost.text secondId,
    .terminated firstId] := by
  simp [runEvents, changes, changeOf, firstLaunch_action, secondLaunch_action, firstEnd_action,
    knowsFirst, knowsSecond, knowing_describe, pdnsName, Action.change]

/-- The second instance is in the file twice, and the first one no more. -/
theorem pool_run : replay blank.pool (changes runEvents)
    = [(secondHost.text, secondId), (secondHost.text, secondId)] := by
  rw [changes_run]
  decide

theorem pool_replayed_run : ∃ c : Config, runWorld.file = c.text ∧ c.head = blank.head ∧
    c.pool = [(secondHost.text, secondId), (secondHost.text, secondId)] := by
  obtain ⟨c, hfile, hhead, hpool⟩ := pool_replayed afterNone blank run_reaches
  exact ⟨c, hfile, hhead, hpool.trans pool_run⟩

end Autoscale
end TdsAdmin
