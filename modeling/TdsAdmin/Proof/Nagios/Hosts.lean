import TdsAdmin.Nagios.Files

/-!
# The host definitions that are written

A call of `printf` writes a definition for every two words it gets (`printf_host`): one for the
server and its address, and one for every two addresses more. So the names in the file are those of
the list and, behind each, every other address of its lookup (`definitions_hosts`).
-/

set_option autoImplicit false

namespace TdsAdmin
namespace Nagios

open Expand (unquoted)
open Fields (isIfs awkFields)

/-! ## Hosts as words -/

namespace Host

theorem ne_nil (x : Host) : x.text ≠ [] := x.isHost.1

theorem hostChar (x : Host) : ∀ c ∈ x.text, isHostChar c = true :=
  fun c hc => List.all_eq_true.mp x.isHost.2.1 c hc

theorem not_mem (x : Host) {c : Char} (hc : isHostChar c = false) : c ∉ x.text := by
  intro hmem
  rw [x.hostChar c hmem] at hc
  cases hc

theorem not_ifs (x : Host) : ∀ c ∈ x.text, isIfs c = false := by
  intro c hc
  refine Bool.eq_false_iff.mpr fun hifs => ?_
  simp only [isIfs, Bool.or_eq_true, beq_iff_eq] at hifs
  rcases hifs with (rfl | rfl) | rfl
  · exact x.not_mem (by decide) hc
  · exact x.not_mem (by decide) hc
  · exact x.not_mem (by decide) hc

theorem not_pattern (x : Host) : Expand.isPattern x.text = false := by
  refine Expand.isPattern_eq_false fun c hc hspecial => ?_
  simp only [List.mem_cons, List.not_mem_nil, or_false] at hspecial
  rcases hspecial with rfl | rfl | rfl
  · exact x.not_mem (by decide) hc
  · exact x.not_mem (by decide) hc
  · exact x.not_mem (by decide) hc

theorem isWord (hosts : List Host) :
    ∀ w ∈ hosts.map Host.text, w ≠ [] ∧ ∀ c ∈ w, isIfs c = false := by
  intro w hw
  obtain ⟨x, -, rfl⟩ := List.mem_map.mp hw
  exact ⟨x.ne_nil, x.not_ifs⟩

theorem text_injective : Function.Injective Host.text := by
  intro x y h
  cases x
  cases y
  cases h
  rfl

end Host

section Words

variable (matching : Text → List Text) (hosts : List Host)

/-- A value whose words are hosts. -/
theorem unquoted_hosts {value : Text} (h : awkFields value = hosts.map Host.text) :
    unquoted matching value = hosts.map Host.text := by
  rw [Expand.unquoted_words fun w hw => ?_, h]
  rw [h] at hw
  obtain ⟨x, -, rfl⟩ := List.mem_map.mp hw
  exact x.not_pattern

theorem unquoted_echo : unquoted matching (echo (hosts.map Host.text)) = hosts.map Host.text :=
  unquoted_hosts matching hosts (Expand.awkFields_between rfl (Host.isWord hosts))

theorem unquoted_host (x : Host) : unquoted matching x.text = [x.text] :=
  unquoted_hosts matching [x] (Expand.awkFields_word x.not_ifs x.ne_nil)

/-- The loop goes through the servers of the list. -/
theorem forWords_serverList : forWords matching (serverList hosts) = hosts.map Host.text := by
  unfold forWords serverList Text.unlines
  rw [unquoted_hosts matching hosts (Expand.awkFields_ended rfl (Host.isWord hosts)),
    unquoted_echo]

/-- A list as the script builds it, with a blank in front of each server. -/
def ledList (words : List Text) : Text := words.flatMap (' ' :: ·)

theorem forWords_ledList : forWords matching (ledList (hosts.map Host.text)) =
    hosts.map Host.text := by
  unfold forWords ledList
  rw [unquoted_hosts matching hosts (Expand.awkFields_led rfl (Host.isWord hosts)), unquoted_echo]

end Words

/-! ## Answers -/

theorem Answer.line_newline (answer : Answer) : '\n' ∉ answer.line := by
  cases answer with
  | other line isOther => exact isOther.1
  | record owner ttl kind type address isEc2 =>
    intro h
    rcases Fields.mem_intercalate h with h | ⟨f, hf, h⟩
    · exact absurd h (by decide)
    · have hspace : Pattern.isSpace '\n' = true := rfl
      simp only [List.mem_cons, List.not_mem_nil, or_false] at hf
      rcases hf with rfl | rfl | rfl | rfl | rfl
      · exact owner.not_mem hspace h
      · exact ttl.not_mem hspace h
      · exact kind.not_mem hspace h
      · exact type.not_mem hspace h
      · exact address.not_mem (by decide) h

/-- What `grep` and `awk` make of a line. -/
theorem answer_fields (answers : List Answer) :
    ((answers.map Answer.line).filter fun line => "ec2".toList.isPrefixOf line).map
      (fun line => (awkFields line).getD 4 []) = (addresses answers).map Host.text := by
  induction answers with
  | nil => rfl
  | cons answer answers ih =>
    rw [List.map_cons]
    cases answer with
    | other line isOther =>
      rw [List.filter_cons_of_neg (by
        rw [List.isPrefixOf_iff_prefix]
        exact isOther.2), ih]
      rfl
    | record owner ttl kind type address isEc2 =>
      have hline : (Answer.record owner ttl kind type address isEc2).line =
          owner.text ++ '\t' :: (ttl.text ++ '\t' :: (kind.text ++ '\t' :: (type.text ++ '\t' ::
            address.text))) := by
        simp [Answer.line, List.intercalate_cons_cons]
      have hfields : awkFields (Answer.record owner ttl kind type address isEc2).line =
          [owner.text, ttl.text, kind.text, type.text, address.text] := by
        rw [hline, Expand.awkFields_cons owner.not_ifs owner.ne_nil rfl,
          Expand.awkFields_cons ttl.not_ifs ttl.ne_nil rfl,
          Expand.awkFields_cons kind.not_ifs kind.ne_nil rfl,
          Expand.awkFields_cons type.not_ifs type.ne_nil rfl,
          Expand.awkFields_word address.not_ifs address.ne_nil]
      have hprefix : "ec2".toList.isPrefixOf
          (Answer.record owner ttl kind type address isEc2).line = true := by
        rw [List.isPrefixOf_iff_prefix, hline]
        exact isEc2.trans (List.prefix_append _ _)
      rw [List.filter_cons_of_pos hprefix, List.map_cons, ih, hfields]
      rfl

/-- The words of `$address`. -/
theorem unquoted_addressOf (matching : Text → List Text) (answers : List Answer) :
    unquoted matching (addressOf (answerText answers)) = (addresses answers).map Host.text := by
  apply unquoted_hosts
  unfold addressOf answerText
  have hlines : (Text.lines (Text.unlines (answers.map Answer.line))).map Text.chomp =
      answers.map Answer.line := by
    rw [Text.lines_unlines fun line hline => by
      obtain ⟨answer, -, rfl⟩ := List.mem_map.mp hline
      exact answer.line_newline]
    rw [List.map_map]
    exact List.map_id'' (fun line => Text.chomp_append line) _
  rw [hlines, answer_fields]
  -- the newline at the end goes, and it is between no words
  rw [Expand.awkFields_rdropWhile fun c hc => by rw [beq_iff_eq.mp hc]; rfl]
  exact Expand.awkFields_ended rfl (Host.isWord _)

/-! ## What `printf` writes -/

/-- Arguments taken two at a time; the last one may be alone. -/
def pairsOf : List Text → List (Text × Text)
  | [] => []
  | [a] => [(a, [])]
  | a :: b :: rest => (a, b) :: pairsOf rest

/-- The lines of a definition. -/
def blockLines (mark name address : Text) : List Text :=
  [mark ++ "define host\x7b".toList, mark ++ useLine, mark ++ ("\thost_name\t".toList ++ name),
    mark ++ ("\taddress\t\t".toList ++ address), mark ++ ['\x7d']]

/-- The lines of all of them. -/
def blocksLines (mark : Text) (args : List Text) : List Text :=
  (pairsOf args).flatMap fun p => blockLines mark p.1 p.2

theorem formatOnce_host (mark : Text) (args : List Text) :
    (Expand.formatOnce (hostFormat mark) args).1 =
      Text.unlines (blockLines mark (args.headD []) (args.tail.headD [])) := by
  unfold hostFormat blockLines Text.unlines
  simp only [Expand.formatOnce, List.flatMap_cons, List.flatMap_nil, List.append_assoc,
    List.append_nil, List.cons_append, List.nil_append]

/-- **`printf` writes a definition for every two words.** -/
theorem printf_host (mark : Text) : ∀ {args : List Text}, args ≠ [] →
    Expand.printf (hostFormat mark) args = Text.unlines (blocksLines mark args)
  | [], h => absurd rfl h
  | [a], _ => by
    have hfits : [a].length ≤ Expand.slots (hostFormat mark) := Nat.le_succ 1
    rw [Expand.printf_fits hfits, formatOnce_host, blocksLines, pairsOf,
      List.flatMap_singleton]
    rfl
  | [a, b], _ => by
    have hfits : [a, b].length ≤ Expand.slots (hostFormat mark) := Nat.le_refl 2
    rw [Expand.printf_fits hfits, formatOnce_host, blocksLines, pairsOf, pairsOf,
      List.flatMap_singleton]
    rfl
  | a :: b :: c :: rest, _ => by
    have hrest := printf_host mark (List.cons_ne_nil c rest)
    have hmore : ¬ ((a :: b :: c :: rest).drop (Expand.slots (hostFormat mark)) = [] ∨
        Expand.slots (hostFormat mark) = 0) := by
      intro h
      rcases h with h | h
      · cases h
      · cases h
    rw [Expand.printf_eq, if_neg hmore]
    show _ ++ Expand.printf (hostFormat mark) (c :: rest) = _
    rw [hrest, formatOnce_host, blocksLines, blocksLines, pairsOf, List.flatMap_cons, Text.unlines,
      Text.unlines, Text.unlines, List.flatMap_append]
    rfl

theorem mem_pairsOf {p : Text × Text} : ∀ {args : List Text}, p ∈ pairsOf args →
    p.1 ∈ args ∧ (p.2 ∈ args ∨ p.2 = [])
  | [], h => absurd h List.not_mem_nil
  | [a], h => by
    rw [List.mem_singleton.mp h]
    exact ⟨List.mem_singleton_self a, Or.inr rfl⟩
  | a :: b :: rest, h => by
    rcases List.mem_cons.mp h with rfl | h
    · exact ⟨List.mem_cons_self, Or.inl (List.mem_cons_of_mem _ List.mem_cons_self)⟩
    · obtain ⟨hname, haddress⟩ := mem_pairsOf h
      refine ⟨List.mem_cons_of_mem _ (List.mem_cons_of_mem _ hname), haddress.imp_left fun h => ?_⟩
      exact List.mem_cons_of_mem _ (List.mem_cons_of_mem _ h)

theorem template_newline : ∀ l ∈ templateLines, '\n' ∉ l := by
  unfold templateLines
  simp only [Text.toList_eq rfl]
  decide +kernel

/-- No word breaks a line. -/
theorem blocksLines_newline {mark : Text} (hmark : '\n' ∉ mark) {args : List Text}
    (hargs : ∀ a ∈ args, '\n' ∉ a) : ∀ l ∈ blocksLines mark args, '\n' ∉ l := by
  intro l hl
  obtain ⟨p, hp, hl⟩ := List.mem_flatMap.mp hl
  obtain ⟨hname, haddress⟩ := mem_pairsOf hp
  have hfirst := hargs p.1 hname
  have hsecond : '\n' ∉ p.2 := by
    rcases haddress with h | h
    · exact hargs p.2 h
    · rw [h]
      exact List.not_mem_nil
  have hbehind : ∀ {s : Text}, '\n' ∉ s → '\n' ∉ mark ++ s := fun hs h =>
    (List.mem_append.mp h).elim hmark hs
  simp only [blockLines, List.mem_cons, List.not_mem_nil, or_false] at hl
  rcases hl with rfl | rfl | rfl | rfl | rfl
  · exact hbehind (by decide)
  · refine hbehind ?_
    unfold useLine
    simp only [Text.toList_eq rfl]
    decide
  · exact hbehind fun h => (List.mem_append.mp h).elim (by decide) hfirst
  · exact hbehind fun h => (List.mem_append.mp h).elim (by decide) hsecond
  · exact hbehind (by decide)

/-! ## What is read back -/

/-- Reading line by line. -/
def readLines (s : Reader) (lines : List Text) : Reader :=
  lines.foldl (fun s line => s.step (uncomment line)) s

theorem definitions_unlines {ls : List Text} (h : ∀ l ∈ ls, '\n' ∉ l) :
    definitions (Text.unlines ls) = (readLines ⟨none, none, []⟩ ls).found := by
  have hread : ∀ (s : Reader) (line : Text),
      s.read (line ++ ['\n']) = s.step (uncomment line) := by
    intro s line
    rw [Reader.read, Text.chomp_append]
  unfold definitions readLines
  rw [Text.lines_unlines h, List.foldl_map]
  simp only [hread]

theorem readLines_append (s : Reader) (as bs : List Text) :
    readLines s (as ++ bs) = readLines (readLines s as) bs := List.foldl_append

/-- Nothing is open. -/
def closed (found : List (Bool × Text)) : Reader := ⟨none, none, found⟩

theorem read_template : readLines ⟨none, none, []⟩ templateLines = closed [] := by
  unfold templateLines
  simp only [Text.toList_eq rfl]
  decide +kernel

/-- A definition that `printf` writes is one that Nagios reads. -/
theorem read_block {mark : Text} (hmark : mark = [] ∨ mark = ['#']) (found : List (Bool × Text))
    (name address : Text) : readLines (closed found) (blockLines mark name address) =
      closed (found ++ [(mark.isEmpty, name)]) := by
  rcases hmark with rfl | rfl
  · rfl
  · rfl

theorem read_blocks {mark : Text} (hmark : mark = [] ∨ mark = ['#']) (found : List (Bool × Text))
    (args : List Text) : readLines (closed found) (blocksLines mark args) =
      closed (found ++ (pairsOf args).map fun p => (mark.isEmpty, p.1)) := by
  unfold blocksLines
  induction pairsOf args generalizing found with
  | nil => exact congrArg closed (List.append_nil _).symm
  | cons p pairs ih =>
    rw [List.flatMap_cons, readLines_append, read_block hmark, ih, List.append_assoc]
    rfl

/-! ## The loop -/

section Loop

variable (matching : Text → List Text) (isOpen : Scan) (dig : Nat → Text → List Answer)

/-- The words that `printf` gets for a server: its name and the addresses that are found. -/
def argsFor (n : Nat) (x : Host) : List Text :=
  x.text :: (addresses (dig n x.text)).map Host.text

/-- The mark of its definition. -/
def markFor (x : Host) : Text := if isOpen x.text nrpe then [] else ['#']

/-- The lines that the loop writes. -/
def linesFrom : Nat → List Host → List Text
  | _, [] => []
  | n, x :: xs => blocksLines (markFor isOpen x) (argsFor dig n x) ++ linesFrom (n + 1) xs

/-- The definitions that are read there. -/
def definedFrom : Nat → List Host → List (Bool × Text)
  | _, [] => []
  | n, x :: xs =>
      ((pairsOf (argsFor dig n x)).map fun p => (isOpen x.text nrpe, p.1)) ++ definedFrom (n + 1) xs

/-- The servers with NRPE. -/
def monitored (xs : List Host) : List Host := xs.filter fun x => isOpen x.text nrpe

/-- What `dig` prints. -/
def digText (n : Nat) (server : Text) : Text := answerText (dig n server)

theorem hostStep_eq (s : Hosts) (x : Host) : hostStep matching isOpen (digText dig) s x.text =
    { file := s.file ++ Text.unlines (blocksLines (markFor isOpen x) (argsFor dig s.calls x))
      nagios_servers := s.nagios_servers ++ ledList ((monitored isOpen [x]).map Host.text)
      calls := s.calls + 1 } := by
  have hargs : unquoted matching x.text ++
      unquoted matching (addressOf (digText dig s.calls x.text)) = argsFor dig s.calls x := by
    rw [unquoted_host, digText, unquoted_addressOf]
    rfl
  have hne : argsFor dig s.calls x ≠ [] := List.cons_ne_nil _ _
  unfold hostStep
  dsimp only
  rw [hargs]
  cases hopen : isOpen x.text nrpe with
  | true =>
    have hmark : markFor isOpen x = [] := if_pos hopen
    have hled : ledList ((monitored isOpen [x]).map Host.text) = ' ' :: x.text := by
      unfold monitored
      rw [List.filter_cons, if_pos hopen]
      exact List.append_nil _
    rw [if_pos rfl, hmark, hled, activeFormat, printf_host [] hne]
  | false =>
    have hmark : markFor isOpen x = ['#'] := if_neg (by rw [hopen]; exact Bool.false_ne_true)
    have hled : ledList ((monitored isOpen [x]).map Host.text) = [] := by
      unfold monitored
      rw [List.filter_cons, if_neg (by rw [hopen]; exact Bool.false_ne_true)]
      rfl
    rw [if_neg Bool.false_ne_true, hmark, hled, List.append_nil, commentedFormat,
      printf_host ['#'] hne]

/-- **The first loop writes the definitions and collects the servers with NRPE.** -/
theorem hostLoop_eq (xs : List Host) (s : Hosts) :
    (xs.map Host.text).foldl (hostStep matching isOpen (digText dig)) s =
      { file := s.file ++ Text.unlines (linesFrom isOpen dig s.calls xs)
        nagios_servers := s.nagios_servers ++ ledList ((monitored isOpen xs).map Host.text)
        calls := s.calls + xs.length } := by
  induction xs generalizing s with
  | nil =>
    show s = _
    rw [linesFrom]
    simp [Text.unlines, monitored, ledList]
  | cons x xs ih =>
    have hmonitored : ledList ((monitored isOpen (x :: xs)).map Host.text) =
        ledList ((monitored isOpen [x]).map Host.text) ++
          ledList ((monitored isOpen xs).map Host.text) := by
      have hsplit : monitored isOpen (x :: xs) = monitored isOpen [x] ++ monitored isOpen xs := by
        unfold monitored
        rw [← List.filter_append]
        rfl
      rw [hsplit, ledList, List.map_append, List.flatMap_append, ← ledList, ← ledList]
    rw [List.map_cons, List.foldl_cons, hostStep_eq, ih, hmonitored, linesFrom, Text.unlines,
      Text.unlines, Text.unlines, List.flatMap_append, List.append_assoc, List.append_assoc,
      List.length_cons, Nat.add_right_comm, Nat.add_assoc]

theorem read_lines (xs : List Host) (n : Nat) (found : List (Bool × Text)) :
    readLines (closed found) (linesFrom isOpen dig n xs) =
      closed (found ++ definedFrom isOpen dig n xs) := by
  induction xs generalizing n found with
  | nil => exact congrArg closed (List.append_nil _).symm
  | cons x xs ih =>
    have hmark : markFor isOpen x = [] ∨ markFor isOpen x = ['#'] := by
      unfold markFor
      split
      · exact Or.inl rfl
      · exact Or.inr rfl
    have hempty : (markFor isOpen x).isEmpty = isOpen x.text nrpe := by
      unfold markFor
      cases isOpen x.text nrpe with
      | true => rfl
      | false => rfl
    rw [linesFrom, readLines_append, read_blocks hmark, ih, List.append_assoc, hempty]
    rfl

theorem linesFrom_newline (xs : List Host) (n : Nat) :
    ∀ l ∈ linesFrom isOpen dig n xs, '\n' ∉ l := by
  induction xs generalizing n with
  | nil => exact fun l hl => absurd hl List.not_mem_nil
  | cons x xs ih =>
    intro l hl
    rcases List.mem_append.mp hl with hl | hl
    · have hmark : '\n' ∉ markFor isOpen x := by
        unfold markFor
        split
        · exact List.not_mem_nil
        · decide
      have hargs : ∀ a ∈ argsFor dig n x, '\n' ∉ a := by
        intro a ha
        obtain ⟨y, -, rfl⟩ : ∃ y ∈ x :: addresses (dig n x.text), y.text = a := List.mem_map.mp ha
        exact y.not_mem (by decide)
      exact blocksLines_newline hmark hargs l hl
    · exact ih (n + 1) l hl

end Loop

/-- **What Nagios reads in `hosts.cfg`.** -/
theorem definitions_hosts (matching : Text → List Text) (isOpen : Scan)
    (dig : Nat → Text → List Answer) (xs : List Host) :
    definitions (createNagiosFiles matching isOpen (digText dig) (serverList xs)).hosts =
      definedFrom isOpen dig 0 xs := by
  have hfile : (createNagiosFiles matching isOpen (digText dig) (serverList xs)).hosts =
      Text.unlines (templateLines ++ linesFrom isOpen dig 0 xs) := by
    unfold createNagiosFiles
    dsimp only
    rw [forWords_serverList, hostLoop_eq, Text.unlines, Text.unlines, Text.unlines,
      List.flatMap_append]
  have hnewline : ∀ l ∈ templateLines ++ linesFrom isOpen dig 0 xs, '\n' ∉ l := by
    intro l hl
    rcases List.mem_append.mp hl with hl | hl
    · exact template_newline l hl
    · exact linesFrom_newline isOpen dig xs 0 l hl
  rw [hfile, definitions_unlines hnewline, readLines_append, read_template, read_lines]
  rfl

end Nagios
end TdsAdmin
