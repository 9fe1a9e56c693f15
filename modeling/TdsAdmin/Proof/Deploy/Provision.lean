import TdsAdmin.Deploy.Provision

/-!
# What the provisioning block changes

A value that the shells leave alone comes through them as it is, and what `sed` gets is the command
of `Settings.setCommand` (`command_through`). An edit then does what was meant exactly when the
lines of its file are clear for it (`runEdit_exact_iff`), and so does a run of which every edit
finds the file so. It may do so without: what one edit has spoiled, a later one may write over.
-/

set_option autoImplicit false

namespace TdsAdmin
namespace Deploy
namespace Provision

open Settings (Span IsLayout IsKey IsSet fileText setLine setCommand)

/-! ## The edits -/

/-- A character that means itself in all the places where a key stands, dots apart. -/
def isKeyChar (c : Char) : Bool :=
  Sed.isLiteral c && c != ' ' && c != '[' && c != '\''

theorem key_chars (s : Setting) : key s ≠ [] ∧ (key s).all isKeyChar = true := by
  cases s <;> exact ⟨List.cons_ne_nil _ _, rfl⟩

theorem edit_key (CATALINA_HOME : Text) (s : Setting) : (edit CATALINA_HOME s).key = key s := by
  cases s <;> rfl

theorem name_chars (s : Setting) : s.name.all (· != '\'') = true := by
  cases s <;> rfl

theorem key_not_mem (s : Setting) {c : Char} (hc : isKeyChar c = false) : c ∉ key s := by
  intro h
  have hkey := List.all_eq_true.mp (key_chars s).2 c h
  rw [hc] at hkey
  cases hkey

theorem isKey (s : Setting) : IsKey (key s) where
  ne_nil := (key_chars s).1
  space := key_not_mem s rfl
  bracket := key_not_mem s rfl

/-! ## The way of a value -/

section Through

variable {around : Surroundings} {value : Text}

theorem ComesThrough.not_mem (h : ComesThrough around value) {c : Char}
    (hc : Shell.isOrdinary c = false) (hdollar : c ≠ '$') : c ∉ value :=
  Shell.not_mem_of_bare h.bare hc hdollar

theorem echoed_through (s : Setting) (h : ComesThrough around value) :
    echoed s value = some (s.name ++ '=' :: value) := by
  have hquote : '\'' ∉ s.name ++ '=' :: value := by
    intro hmem
    rcases List.mem_append.mp hmem with hmem | hmem
    · exact absurd (List.all_eq_true.mp (name_chars s) _ hmem) (by decide)
    · rcases List.mem_cons.mp hmem with hmem | hmem
      · exact absurd hmem (by decide)
      · exact h.not_mem rfl (by decide) hmem
  unfold echoed oneWord
  rw [Shell.readWord_single_append [] hquote]
  show some (s.name ++ '=' :: value ++ []) = _
  rw [List.append_nil]

theorem sourced_through (s : Setting) (h : ComesThrough around value) :
    sourced around s (s.name ++ '=' :: value) = some value := by
  have hprefixed : s.name ++ ['='] <+: s.name ++ '=' :: value := by
    refine ⟨value, ?_⟩
    rw [List.append_assoc]
    rfl
  have hdrop : (s.name ++ '=' :: value).drop (s.name.length + 1) = value := by
    rw [List.drop_append]
    simp
  have hword : Shell.readWord .plain (value ++ ['\n']) = some (value, ['\n']) := by
    rw [Shell.readWord_bare _ h.bare]
    show some (value ++ [], ['\n']) = _
    rw [List.append_nil]
  unfold sourced
  rw [if_pos hprefixed, hdrop]
  dsimp only
  rw [if_pos h.tilde, hword]
  rfl

/-- The replacement that `sed` reads from this stretch is that text. -/
def Reads (stretch text : Text) : Prop := ∀ t, Sed.readReplacement (stretch ++ t)
  = (Sed.readReplacement t).map fun r => (text.map .char ++ r.1, r.2)

theorem Reads.literal {w : Text} (h : ∀ c ∈ w, Sed.isLiteral c = true) : Reads w w :=
  fun t => Sed.readReplacement_append h t

theorem Reads.slash : Reads "\\/".toList ['/'] :=
  fun t => Sed.readReplacement_escaped (d := '/') rfl t

theorem Reads.append {u v x y : Text} (hu : Reads u x) (hv : Reads v y) :
    Reads (u ++ v) (x ++ y) := by
  intro t
  rw [List.append_assoc, hu, hv, Option.map_map, List.map_append]
  refine congrArg (Option.map · _) (funext fun r => ?_)
  show (_, _) = (_, _)
  rw [List.append_assoc]

theorem isLiteral_through (h : ComesThrough around value) :
    ∀ c ∈ value, Sed.isLiteral c = true := by
  intro c hc
  have hne : ∀ {d : Char}, Shell.isOrdinary d = false → d ≠ '$' → c ≠ d := by
    rintro d hd hdollar rfl
    exact h.not_mem hd hdollar hc
  unfold Sed.isLiteral
  rw [beq_eq_false_iff_ne.mpr (hne (d := '|') rfl (by decide)),
    beq_eq_false_iff_ne.mpr (hne (d := '\\') rfl (by decide)),
    beq_eq_false_iff_ne.mpr (hne (d := '&') rfl (by decide)),
    beq_eq_false_iff_ne.mpr (hne (d := '\n') rfl (by decide))]
  rfl

/-- What stands in front of a value, or behind it: how it is written in the script, and what `sed`
makes of it. -/
structure Beside (stretch text : Text) : Prop where
  reads : Reads stretch text
  unquoted : '\'' ∉ stretch

theorem beside_nothing : Beside [] [] :=
  ⟨Reads.literal fun _ hc => absurd hc List.not_mem_nil, List.not_mem_nil⟩

theorem beside_quote : Beside ['"'] ['"'] := by
  refine ⟨Reads.literal fun c hc => ?_, by decide⟩
  obtain rfl := List.mem_singleton.mp hc
  rfl

theorem beside_slash : Beside "\\/".toList ['/'] := ⟨Reads.slash, by decide⟩

/-- What stands around a value in the script is what is meant to stand around it. -/
theorem written_beside (CATALINA_HOME : Text) (s : Setting) : ∃ before after,
    Beside (edit CATALINA_HOME s).opening before ∧ Beside (edit CATALINA_HOME s).closing after ∧
      ∀ value, written s value = before ++ (value ++ after) := by
  have hbare : ∀ value : Text, value = [] ++ (value ++ []) := fun value =>
    (List.append_nil value).symm
  cases s with
  | KeyAlias => exact ⟨_, _, beside_quote, beside_quote, fun _ => rfl⟩
  | mysql_url => exact ⟨_, _, beside_quote, beside_quote, fun _ => rfl⟩
  | db_username => exact ⟨_, _, beside_quote, beside_quote, fun _ => rfl⟩
  | db_password => exact ⟨_, _, beside_quote, beside_quote, fun _ => rfl⟩
  | rest_context_root => exact ⟨_, _, beside_slash, beside_slash, fun _ => rfl⟩
  | _ => exact ⟨_, _, beside_nothing, beside_nothing, hbare⟩

/-- A `$` starts nothing, so it is not the last character. -/
theorem getLast?_of_bare : ∀ {v : Text}, Shell.bare v = true → v.getLast? ≠ some '$'
  | [], _ => by simp
  | [c], h => by
    rintro hlast
    obtain rfl : c = '$' := Option.some.inj hlast
    exact absurd h (by decide)
  | c :: d :: v, h => by
    rw [List.getLast?_cons_cons]
    exact getLast?_of_bare (Shell.bare_cons.mp h).2

theorem script_through (CATALINA_HOME : Text) (s : Setting) (h : ComesThrough around value) :
    script around (edit CATALINA_HOME s) value = some ("s|".toList ++ key s ++ "[^ ]*|".toList ++
      key s ++ (edit CATALINA_HOME s).opening ++
        (value ++ ((edit CATALINA_HOME s).closing ++ ['|']))) := by
  obtain ⟨_, _, hopening, hclosing, -⟩ := written_beside CATALINA_HOME s
  have hkey : '\'' ∉ key s := key_not_mem s rfl
  have hfirst : '\'' ∉ "s|".toList ++ key s ++ "[^ ]*|".toList ++ key s ++
      (edit CATALINA_HOME s).opening := by
    simp only [List.mem_append, not_or]
    exact ⟨⟨⟨⟨by decide, hkey⟩, by decide⟩, hkey⟩, hopening.unquoted⟩
  have hlast : '\'' ∉ (edit CATALINA_HOME s).closing ++ ['|'] := by
    rw [List.mem_append, not_or]
    exact ⟨hclosing.unquoted, by decide⟩
  have hsecond : '\'' :: ((edit CATALINA_HOME s).closing ++ "|'".toList)
      = '\'' :: (((edit CATALINA_HOME s).closing ++ ['|']) ++ '\'' :: []) := by
    rw [List.append_assoc]
    rfl
  unfold script oneWord
  rw [if_pos ⟨h.expansions, getLast?_of_bare h.bare⟩, edit_key,
    Shell.readWord_single_append _ hfirst, Shell.readWord_bare _ h.bare, hsecond,
    Shell.readWord_single_append _ hlast]
  show some (_ ++ (value ++ (((edit CATALINA_HOME s).closing ++ ['|']) ++ []))) = _
  rw [List.append_nil]

/-- What `sed` gets for such a value sets the setting to it. -/
theorem command_through (CATALINA_HOME : Text) (s : Setting) (h : ComesThrough around value) :
    command around CATALINA_HOME s value = some (setCommand key s (written s value)) := by
  obtain ⟨before, after, hbefore, hafter, hwritten⟩ := written_beside CATALINA_HOME s
  have hkeyLiteral : ∀ c ∈ key s, Sed.isLiteral c = true := by
    intro c hc
    have hchar := List.all_eq_true.mp (key_chars s).2 c hc
    simp only [isKeyChar, Bool.and_eq_true] at hchar
    exact hchar.1.1.1
  have hreads : Reads (key s ++ ((edit CATALINA_HOME s).opening ++
      (value ++ (edit CATALINA_HOME s).closing))) (key s ++ written s value) := by
    rw [hwritten]
    exact (Reads.literal hkeyLiteral).append
      (hbefore.reads.append ((Reads.literal (isLiteral_through h)).append hafter.reads))
  have hparts := hreads ['|']
  rw [Sed.readReplacement_end] at hparts
  have hbar : '|' ∉ key s ++ "[^ ]*".toList := by
    rw [List.mem_append, not_or]
    exact ⟨key_not_mem s rfl, by decide⟩
  unfold command
  rw [echoed_through s h, Option.bind_some, sourced_through s h, Option.bind_some,
    script_through CATALINA_HOME s h, Option.bind_some]
  have hscript : "s|".toList ++ key s ++ "[^ ]*|".toList ++ key s ++
      (edit CATALINA_HOME s).opening ++ (value ++ ((edit CATALINA_HOME s).closing ++ ['|']))
      = 's' :: '|' :: ((key s ++ "[^ ]*".toList) ++ '|' :: (key s ++
        ((edit CATALINA_HOME s).opening ++ (value ++ (edit CATALINA_HOME s).closing)) ++
        ['|'])) := by
    have hbar : "[^ ]*|".toList = "[^ ]*".toList ++ ['|'] := rfl
    have hstart : "s|".toList = ['s', '|'] := rfl
    rw [hbar, hstart]
    simp only [List.append_assoc, List.cons_append, List.nil_append]
  rw [hscript, Sed.readCommand_eq hbar hparts]
  show some _ = some _
  rw [List.append_nil]
  rfl

end Through

/-! ## One edit -/

section Edits

variable {around : Surroundings} {CATALINA_HOME : Text} {values : Setting → Text}

/-- The layouts that the settings leave behind are layouts. -/
def AllLayouts (files : Files Lines) : Prop :=
  ∀ path lines, files path = some lines → IsLayout key lines

/-- A text without spaces and newlines is what is written for such a value. -/
theorem not_mem_written {c : Char} (hc : c = ' ' ∨ c = '\n') {value : Text}
    (h : ComesThrough around value) (s : Setting) : c ∉ written s value := by
  have hvalue : c ∉ value := by
    rcases hc with rfl | rfl
    · exact h.not_mem rfl (by decide)
    · exact h.not_mem rfl (by decide)
  have haround : ∀ {d : Char}, d ≠ ' ' → d ≠ '\n' → c ∉ d :: (value ++ [d]) := by
    intro d hspace hnewline hmem
    have hd : c ≠ d := by
      rintro rfl
      exact hc.elim hspace hnewline
    simp only [List.mem_cons, List.mem_append, List.not_mem_nil, or_false] at hmem
    rcases hmem with hmem | hmem | hmem
    · exact hd hmem
    · exact hvalue hmem
    · exact hd hmem
  have hquote := haround (d := '"') (by decide) (by decide)
  cases s with
  | KeyAlias => exact hquote
  | mysql_url => exact hquote
  | db_username => exact hquote
  | db_password => exact hquote
  | rest_context_root => exact haround (by decide) (by decide)
  | _ => exact hvalue

variable (hv : ∀ s, ComesThrough around (values s))
include hv

theorem setFile_layouts {files : Files Lines} (h : AllLayouts files) (s : Setting) :
    AllLayouts (setFile CATALINA_HOME values files s) := by
  unfold setFile
  cases hfile : files (edit CATALINA_HOME s).path with
  | none => exact h
  | some lines =>
    intro path l hl
    have hset : IsLayout key (lines.map (setLine s (written s (values s)))) :=
      (h _ lines hfile).set (not_mem_written (Or.inr rfl) (hv s) s)
    by_cases hpath : path = (edit CATALINA_HOME s).path
    · subst hpath
      dsimp only at hl
      rw [Function.update_self] at hl
      rw [← Option.some.inj hl]
      exact hset
    · dsimp only at hl
      rw [Function.update_of_ne hpath] at hl
      exact h path l hl

theorem setAll_layouts {files : Files Lines} (h : AllLayouts files) (ss : List Setting) :
    AllLayouts (setAll CATALINA_HOME values ss files) := by
  induction ss generalizing files with
  | nil => exact h
  | cons s ss ih => exact ih (setFile_layouts hv h s)

/-- **An edit does what was meant exactly when the lines of its file are clear for it.** -/
theorem runEdit_exact_iff {files : Files Lines} (h : AllLayouts files) (s : Setting) :
    runEdit around CATALINA_HOME values (texts files) s
      = some (texts (setFile CATALINA_HOME values files s)) ↔
      ClearFor CATALINA_HOME values files s := by
  unfold runEdit
  rw [command_through CATALINA_HOME s (hv s), Option.map_some, Option.some.injEq]
  unfold setFile ClearFor
  cases hfile : files (edit CATALINA_HOME s).path with
  | none =>
    have htext : texts files (edit CATALINA_HOME s).path = none := by
      unfold texts
      rw [hfile]
      rfl
    rw [htext]
    exact iff_of_true rfl fun lines hlines => by cases hlines
  | some lines =>
    have htext : texts files (edit CATALINA_HOME s).path = some (fileText key lines) := by
      unfold texts
      rw [hfile]
      rfl
    have hafter : texts (Function.update files (edit CATALINA_HOME s).path
        (some (lines.map (setLine s (written s (values s))))))
        = Function.update (texts files) (edit CATALINA_HOME s).path
          (some (fileText key (lines.map (setLine s (written s (values s)))))) := by
      funext path
      unfold texts
      by_cases hpath : path = (edit CATALINA_HOME s).path
      · subst hpath
        rw [Function.update_self, Function.update_self]
        rfl
      · rw [Function.update_of_ne hpath, Function.update_of_ne hpath]
    rw [htext]
    dsimp only
    rw [hafter, (Function.update_injective _ _).eq_iff, Option.some.injEq,
      Settings.onFile_exact_iff (isKey s) (key_not_mem s rfl)
        (not_mem_written (Or.inl rfl) (hv s) s) (not_mem_written (Or.inr rfl) (hv s) s)
        (h _ lines hfile)]
    constructor
    · intro hclear l hl
      cases hl
      exact hclear
    · intro hclear
      exact hclear lines rfl

end Edits

/-! ## The run -/

section Run

variable {CATALINA_HOME : Text} {values : Setting → Text}

theorem setAll_append (ss ts : List Setting) (files : Files Lines) :
    setAll CATALINA_HOME values (ss ++ ts) files
      = setAll CATALINA_HOME values ts (setAll CATALINA_HOME values ss files) :=
  List.foldl_append

/-- The setting has its value in its file. -/
def IsSetIn (CATALINA_HOME : Text) (values : Setting → Text) (files : Files Lines) (s : Setting) :
    Prop :=
  ∀ lines, files (edit CATALINA_HOME s).path = some lines →
    ∀ line ∈ lines, IsSet s (written s (values s)) line

theorem isSetIn_setFile (files : Files Lines) (s : Setting) :
    IsSetIn CATALINA_HOME values (setFile CATALINA_HOME values files s) s := by
  intro l hl line hline
  unfold setFile at hl
  cases hfile : files (edit CATALINA_HOME s).path with
  | none =>
    rw [hfile] at hl
    dsimp only at hl
    rw [hfile] at hl
    cases hl
  | some lines =>
    rw [hfile] at hl
    dsimp only at hl
    rw [Function.update_self] at hl
    rw [← Option.some.inj hl] at hline
    obtain ⟨old, -, rfl⟩ := List.mem_map.mp hline
    exact Settings.isSet_setLine

/-- No later edit takes a setting back. -/
theorem IsSetIn.setFile {files : Files Lines} {s : Setting}
    (h : IsSetIn CATALINA_HOME values files s) (t : Setting) :
    IsSetIn CATALINA_HOME values (setFile CATALINA_HOME values files t) s := by
  by_cases hst : t = s
  · rw [hst]
    exact isSetIn_setFile files s
  · intro l hl line hline
    unfold Provision.setFile at hl
    cases hfile : files (edit CATALINA_HOME t).path with
    | none =>
      rw [hfile] at hl
      exact h l hl line hline
    | some lines =>
      rw [hfile] at hl
      dsimp only at hl
      by_cases hpath : (edit CATALINA_HOME s).path = (edit CATALINA_HOME t).path
      · rw [hpath, Function.update_self] at hl
        rw [← Option.some.inj hl] at hline
        obtain ⟨old, hold, rfl⟩ := List.mem_map.mp hline
        exact Settings.isSet_setLine_other hst (h lines (hpath ▸ hfile) old hold)
      · rw [Function.update_of_ne hpath] at hl
        exact h l hl line hline

theorem isSetIn_setAll {ss : List Setting} {s : Setting} : ∀ {files : Files Lines},
    s ∈ ss ∨ IsSetIn CATALINA_HOME values files s →
    IsSetIn CATALINA_HOME values (setAll CATALINA_HOME values ss files) s := by
  induction ss with
  | nil => exact fun h => h.resolve_left List.not_mem_nil
  | cons t ss ih =>
    intro files h
    show IsSetIn _ _ (setAll CATALINA_HOME values ss (setFile CATALINA_HOME values files t)) s
    apply ih
    rcases h with h | h
    · rcases List.mem_cons.mp h with rfl | h
      · exact Or.inr (isSetIn_setFile files s)
      · exact Or.inl h
    · exact Or.inr (h.setFile t)

theorem IsSetIn.fixed {files : Files Lines} {s : Setting}
    (h : IsSetIn CATALINA_HOME values files s) :
    Provision.setFile CATALINA_HOME values files s = files := by
  unfold Provision.setFile
  cases hfile : files (edit CATALINA_HOME s).path with
  | none => rfl
  | some lines =>
    have hsame : lines.map (setLine s (written s (values s))) = lines := by
      refine (List.map_congr_left fun line hline => ?_).trans (List.map_id lines)
      exact Settings.setLine_of_isSet (h lines hfile line hline)
    dsimp only
    rw [hsame, ← hfile]
    exact Function.update_eq_self _ _

/-- Setting everything again is setting it once. -/
theorem setAll_again (ss : List Setting) (files : Files Lines) :
    setAll CATALINA_HOME values ss (setAll CATALINA_HOME values ss files)
      = setAll CATALINA_HOME values ss files := by
  have hfixed : ∀ {ts : List Setting} {files : Files Lines},
      (∀ s ∈ ts, IsSetIn CATALINA_HOME values files s) →
      setAll CATALINA_HOME values ts files = files := by
    intro ts
    induction ts with
    | nil => exact fun _ => rfl
    | cons t ts ih =>
      intro files h
      obtain ⟨ht, hts⟩ := List.forall_mem_cons.mp h
      show setAll CATALINA_HOME values ts (setFile CATALINA_HOME values files t) = files
      rw [ht.fixed]
      exact ih hts
  exact hfixed fun s hs => isSetIn_setAll (Or.inl hs)

section Steps

variable {around : Surroundings} (hv : ∀ s, ComesThrough around (values s))
include hv

/-- **Where every edit of a run finds its file clear, the run sets the settings and nothing
else.** -/
theorem run_exact {files : Files Lines} (h : AllLayouts files) {ss : List Setting}
    (hclear : ∀ done s, done ++ [s] <+: ss →
      ClearFor CATALINA_HOME values (setAll CATALINA_HOME values done files) s) :
    ss.foldlM (runEdit around CATALINA_HOME values) (texts files)
      = some (texts (setAll CATALINA_HOME values ss files)) := by
  induction ss using List.reverseRecOn with
  | nil => rfl
  | append_singleton done s ih =>
    have hdone := ih fun done' s' hrun => hclear done' s' (hrun.trans (List.prefix_append done [s]))
    have hstep := (runEdit_exact_iff hv (setAll_layouts hv h done) s).mpr
      (hclear done s (List.prefix_refl _))
    rw [List.foldlM_append, hdone, setAll_append]
    show (some (texts _)).bind
      (fun files => (runEdit around CATALINA_HOME values files s).bind some) = _
    rw [Option.bind_some, Option.bind_fun_some]
    exact hstep

end Steps

/-- **Where every value comes through and every edit of the two runs finds the lines of its file
clear for it, the block sets the settings and changes nothing else.** -/
theorem provisions_of_clear (around : Surroundings) (CATALINA_HOME : Text)
    (values : Setting → Text) (hv : ∀ s, ComesThrough around (values s))
    (configuration : Configuration)
    (hclear : EveryStepClear CATALINA_HOME values configuration.files) :
    Provisions CATALINA_HOME values around configuration.files := by
  have hlayouts := configuration.isLayout
  have honce : appProvision around CATALINA_HOME values (texts configuration.files)
      = some (texts (setAll CATALINA_HOME values block configuration.files)) :=
    run_exact hv hlayouts fun done s hrun =>
      hclear done s (hrun.trans (List.prefix_append block block))
  refine ⟨honce, ?_⟩
  -- the second run starts from what the first has left
  have hagain : appProvision around CATALINA_HOME values
      (texts (setAll CATALINA_HOME values block configuration.files))
      = some (texts (setAll CATALINA_HOME values block
        (setAll CATALINA_HOME values block configuration.files))) :=
    run_exact hv (setAll_layouts hv hlayouts block) fun done s hrun => by
      rw [← setAll_append]
      refine hclear (block ++ done) s ?_
      rw [List.append_assoc]
      exact (List.prefix_append_right_inj block).mpr hrun
  rw [setAll_again] at hagain
  exact hagain

end Run

/-! ## The context of Tomcat -/

/-- The parameters of an instance. -/
def instanceValues : Setting → Text := fun _ => "db".toList

/-- Shells that put nothing in the place of a text. -/
def plainShells : Surroundings := ⟨id, fun v => [v]⟩

theorem instanceValues_through (s : Setting) : ComesThrough plainShells (instanceValues s) :=
  ⟨rfl, rfl, rfl⟩

/-- A line of `context.xml`: a connection string in an attribute that nobody edits, up to its
`url=`. -/
def itembank : Text :=
  "     <Parameter name=\"tdscore.itembank\"  override=\"false\" ".toList ++
    "value=\"User ID=DBUSER;password=DBPASSWORD;Initial Catalog=itembank;".toList ++
    "Data Source=tds-db.uat.opentestsystem.org:3306;Connect Timeout=60;".toList

/-- The connection string from there on, the end of the tag with it. -/
def itembankUrl : Text := "url=jdbc:mysql://DBURL:3306/itembank\"/>".toList

/-- The lines of `context.xml` that an edit looks for. -/
def contextLines : Lines :=
  [[.text "            type=\"javax.sql.DataSource\" ".toList,
      .setting .db_username "\"DB_username\"".toList, .text " ".toList,
      .setting .db_password "\"DB_password\"".toList],
    [.text "            ".toList,
      .setting .mysql_url "\"jdbc:mysql://DB_server:DB_port/DB_schema\"".toList],
    [.text (itembank ++ itembankUrl)]]

theorem contextLines_oneLine : ∀ line ∈ contextLines, '\n' ∉ Settings.render key line := by
  unfold contextLines itembank itembankUrl key edit quoted
  simp only [Text.toList_eq rfl]
  decide +kernel

/-- The file of the connection strings. -/
def contextPath : Text := "/usr/local/tomcat/conf/context.xml".toList

def contextXml : Configuration where
  files := fun path => if path = contextPath then some contextLines else none
  isLayout := by
    intro path lines h
    split at h
    · obtain rfl := Option.some.inj h
      refine ⟨List.cons_ne_nil _ _, contextLines_oneLine, ?_⟩
      intro line hline a
      rcases List.mem_cons.mp hline with rfl | hline
      · exact ⟨fun _ => Or.inl List.mem_cons_self, fun _ => trivial, trivial⟩
      · rcases List.mem_cons.mp hline with rfl | hline
        · exact ⟨fun _ => trivial, trivial⟩
        · obtain rfl := List.mem_singleton.mp hline
          exact trivial
    · cases h


/-- What is read of the file of the connection strings. -/
def lastChar (files : Files Text) : Option Char := (files contextPath).bind List.getLast?

/-- The `url=` of the connection string is edited in place of a setting, and the end of the tag
goes with it. -/
theorem itembank_spoiled : ¬ ∀ (around : Surroundings) (CATALINA_HOME : Text)
    (values : Setting → Text) (configuration : Configuration),
    Provisions CATALINA_HOME values around configuration.files := by
  intro h
  have hexact := (h plainShells "/usr/local/tomcat".toList instanceValues contextXml).exact
  have hrun : (appProvision plainShells "/usr/local/tomcat".toList instanceValues
      (texts contextXml.files)).bind lastChar = some '"' := by decide +kernel
  have hmeant : lastChar (texts (setAll "/usr/local/tomcat".toList instanceValues block
      contextXml.files)) = some '>' := by decide +kernel
  rw [hexact, Option.bind_some, hmeant] at hrun
  exact absurd hrun (by decide)

/-! ## The connector of Tomcat -/

def serverPath : Text := "/usr/local/tomcat/conf/server.xml".toList

/-- The line with the key of the connector. -/
def connectorLine : List (Span Setting) :=
  [.text "   keystoreType=\"PKCS12\" ".toList, .setting .KeyAlias "\"tomcat\"".toList,
    .text " clientAuth=\"false\" />".toList]

theorem connectorLine_oneLine : '\n' ∉ Settings.render key connectorLine := by decide +kernel

def serverXml : Configuration where
  files := fun path => if path = serverPath then some [connectorLine] else none
  isLayout := by
    intro path lines h
    split at h
    · obtain rfl := Option.some.inj h
      refine ⟨List.cons_ne_nil _ _, ?_, ?_⟩
      · intro line hline
        obtain rfl := List.mem_singleton.mp hline
        exact connectorLine_oneLine
      · intro line hline a
        obtain rfl := List.mem_singleton.mp hline
        exact ⟨fun _ => Or.inl (by decide), trivial⟩
    · cases h

/-- The file with its setting set. -/
def serverXmlSet : Files Lines := fun path =>
  if path = serverPath then some [setLine .KeyAlias "\"db\"".toList connectorLine] else none

/-- Only the key of the connector is in the file that is there. -/
theorem serverXml_path {s : Setting} (hs : s ≠ .KeyAlias) :
    (edit "/usr/local/tomcat".toList s).path ≠ serverPath := by
  cases s <;> first | exact absurd rfl hs | decide

theorem setFile_serverXml {files : Files Lines} (s : Setting)
    (h : files = serverXml.files ∨ files = serverXmlSet) :
    setFile "/usr/local/tomcat".toList instanceValues files s = serverXml.files ∨
      setFile "/usr/local/tomcat".toList instanceValues files s = serverXmlSet := by
  by_cases hs : s = .KeyAlias
  · subst hs
    have hpath : (edit "/usr/local/tomcat".toList .KeyAlias).path = serverPath := rfl
    right
    funext path
    unfold setFile
    rw [hpath]
    rcases h with rfl | rfl
    · by_cases hp : path = serverPath
      · subst hp
        simp [serverXml, serverXmlSet, written, instanceValues]
      · simp [serverXml, serverXmlSet, hp]
    · by_cases hp : path = serverPath
      · subst hp
        simp [serverXmlSet, written, instanceValues, setLine, Span.set, connectorLine]
      · simp [serverXmlSet, hp]
  · have hnone : files (edit "/usr/local/tomcat".toList s).path = none := by
      rcases h with rfl | rfl
      · exact if_neg (serverXml_path hs)
      · exact if_neg (serverXml_path hs)
    have hsame : setFile "/usr/local/tomcat".toList instanceValues files s = files := by
      unfold setFile
      rw [hnone]
    rw [hsame]
    exact h

theorem setAll_serverXml (done : List Setting) :
    setAll "/usr/local/tomcat".toList instanceValues done serverXml.files = serverXml.files ∨
      setAll "/usr/local/tomcat".toList instanceValues done serverXml.files = serverXmlSet := by
  induction done using List.reverseRecOn with
  | nil => exact Or.inl rfl
  | append_singleton done s ih =>
    rw [setAll_append]
    exact setFile_serverXml s ih

theorem connectorLine_clear :
    Settings.Clear key .KeyAlias (written .KeyAlias "db".toList) connectorLine := by
  right
  refine ⟨[.text "   keystoreType=\"PKCS12\" ".toList], "\"tomcat\"".toList,
    [.text " clientAuth=\"false\" />".toList], rfl, ?_, ?_, ?_⟩
  · intro old hold
    simp at hold
  · intro old hold
    simp at hold
  · decide +kernel

theorem connectorLine_clear_set : Settings.Clear key .KeyAlias (written .KeyAlias "db".toList)
    (setLine .KeyAlias "\"db\"".toList connectorLine) := by
  left
  refine ⟨Settings.isSet_setLine, ?_⟩
  have hfound : Settings.found key .KeyAlias
      (Settings.render key (setLine .KeyAlias "\"db\"".toList connectorLine)) =
      some ("   keystoreType=\"PKCS12\" ".toList, [], " clientAuth=\"false\" />".toList) := by
    decide +kernel
  intro before after h
  rw [hfound] at h
  cases h
  decide +kernel

/-- Every edit of two runs finds the file clear. -/
theorem serverXml_clear :
    EveryStepClear "/usr/local/tomcat".toList instanceValues serverXml.files := by
  intro done s _ lines hlines line hline
  by_cases hs : s = .KeyAlias
  · subst hs
    have hpath : (edit "/usr/local/tomcat".toList .KeyAlias).path = serverPath := rfl
    rw [hpath] at hlines
    rcases setAll_serverXml done with hfiles | hfiles
    · have hfile : serverXml.files serverPath = some [connectorLine] := by simp [serverXml]
      rw [hfiles, hfile] at hlines
      obtain rfl := Option.some.inj hlines
      obtain rfl := List.mem_singleton.mp hline
      exact connectorLine_clear
    · have hfile : serverXmlSet serverPath
          = some [setLine .KeyAlias "\"db\"".toList connectorLine] := by simp [serverXmlSet]
      rw [hfiles, hfile] at hlines
      obtain rfl := Option.some.inj hlines
      obtain rfl := List.mem_singleton.mp hline
      exact connectorLine_clear_set
  · have hnone : setAll "/usr/local/tomcat".toList instanceValues done serverXml.files
        (edit "/usr/local/tomcat".toList s).path = none := by
      rcases setAll_serverXml done with hfiles | hfiles
      · rw [hfiles]
        exact if_neg (serverXml_path hs)
      · rw [hfiles]
        exact if_neg (serverXml_path hs)
    rw [hnone] at hlines
    cases hlines

theorem provisions_of_clear_serverXml :
    Provisions "/usr/local/tomcat".toList instanceValues plainShells serverXml.files :=
  provisions_of_clear plainShells _ instanceValues instanceValues_through serverXml serverXml_clear

end Provision
end Deploy
end TdsAdmin
