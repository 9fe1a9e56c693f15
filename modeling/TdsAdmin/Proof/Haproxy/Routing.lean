import TdsAdmin.Proof.Haproxy.Generated
import TdsAdmin.Proof.Haproxy.Update

/-!
# Requests reach the instances

What a template becomes is read by haproxy as a frontend with an ACL and a rule for each backend,
and as these backends with their servers. If it can make an address of every instance, a request is
served by the instances whose tags make the name in its `Host` header, and by no others (`routed`);
one instance without an address is enough for it to refuse the file.

The other template of the class is of no use: haproxy refuses its mode, whatever stands around it
(`ssl_refused`).
-/

set_option autoImplicit false

namespace TdsAdmin
namespace Haproxy

/-! ## The instances -/

/-- The instances with every tag that is asked for. -/
def included (keys : List Text) (instances : List Instance) : List Instance :=
  instances.filter fun i => missingTags keys i = []

def named (prefixes : List Text) (i : Instance) : Instance :=
  i.setTag "backend".toList (backendName prefixes i)

section Included

variable {keys prefixes : List Text}

theorem include_eq (keys prefixes : List Text) (instances : List Instance) :
    instances.filterMap (include? keys prefixes) =
      (included keys instances).map (named prefixes) := by
  induction instances with
  | nil => rfl
  | cons i instances ih =>
    rw [List.filterMap_cons, included, List.filter_cons]
    unfold include?
    by_cases h : missingTags keys i = []
    · simp only [h, if_true, decide_true, List.map_cons]
      rw [← included, ← ih]
      rfl
    · simp only [h, if_false, decide_false, Bool.false_eq_true]
      exact ih

@[simp] theorem named_tag (i : Instance) :
    (named prefixes i).tag "backend".toList = backendName prefixes i := by
  simp [named, Instance.tag, Instance.setTag]

@[simp] theorem named_server (i : Instance) : serverOf (named prefixes i) = serverOf i := by
  have hne : "AppPort".toList ≠ "backend".toList := by decide
  have hport : (named prefixes i).tag "AppPort".toList = i.tag "AppPort".toList := by
    unfold named Instance.tag Instance.setTag
    dsimp only
    rw [Function.update_of_ne hne]
  rw [serverOf, serverOf, hport]
  rfl

theorem find?_addBackend {accepts : Text → Bool} (names : List Text) (before : List Text) :
    (names.foldl addBackend before).find? accepts = (before ++ names).find? accepts := by
  induction names generalizing before with
  | nil => simp
  | cons name names ih =>
    rw [List.foldl_cons, ih, addBackend]
    split
    · rename_i hmem
      rw [List.contains_iff_mem] at hmem
      rw [List.find?_append, List.find?_append, List.find?_cons]
      cases hbefore : before.find? accepts with
      | some found => rfl
      | none =>
        have hname : accepts name = false :=
          Bool.eq_false_iff.mpr (List.find?_eq_none.mp hbefore name hmem)
        rw [hname]
    · rw [List.append_assoc, List.singleton_append]

theorem mem_addBackend {b : Text} (names : List Text) (before : List Text) :
    b ∈ names.foldl addBackend before ↔ b ∈ before ∨ b ∈ names := by
  induction names generalizing before with
  | nil => simp
  | cons name names ih =>
    rw [List.foldl_cons, ih, addBackend]
    split
    · rename_i hmem
      rw [List.contains_iff_mem] at hmem
      rw [List.mem_cons]
      apply Iff.intro
      · intro h
        exact h.imp_right Or.inr
      · intro h
        rcases h with h | rfl | h
        · exact Or.inl h
        · exact Or.inl hmem
        · exact Or.inr h
    · rw [List.mem_append, List.mem_singleton, List.mem_cons, or_assoc]

/-- The names in the order in which they turn up. -/
def namesOf (keys prefixes : List Text) (instances : List Instance) : List Text :=
  ((included keys instances).map (backendName prefixes)).foldl addBackend []

theorem collect_names (instances : List Instance) :
    (collect keys prefixes instances).allBackends = namesOf keys prefixes instances := by
  have hnames : (instances.filterMap (include? keys prefixes)).map
      (fun i => i.tag "backend".toList) = (included keys instances).map (backendName prefixes) := by
    rw [include_eq, List.map_map]
    apply List.map_congr_left
    intro i _
    exact named_tag i
  unfold collect namesOf
  rw [hnames]

/-- The instances that share a name. -/
def withName (keys prefixes : List Text) (instances : List Instance) (name : Text) :
    List Instance :=
  (included keys instances).filter fun i => backendName prefixes i = name

theorem collect_servers (instances : List Instance) (name : Text) :
    (collect keys prefixes instances).includedInstances.filter
        (fun i => i.tag "backend".toList = name) =
      (withName keys prefixes instances name).map (named prefixes) := by
  have hincluded : (collect keys prefixes instances).includedInstances =
      (included keys instances).map (named prefixes) := include_eq keys prefixes instances
  have htag : (fun i : Instance => decide (i.tag "backend".toList = name)) ∘ named prefixes =
      fun i => decide (backendName prefixes i = name) := by
    funext i
    rw [Function.comp_apply, named_tag]
  rw [hincluded, List.filter_map, htag, withName]

end Included

/-! ## The choice -/

/-- A value of the header that is the name of a backend in the domain, in any case. -/
def reaches (domain : Text) (hosts : List Text) (name : Text) : Bool :=
  hosts.any fun host => lower (name ++ '.' :: domain) == lower host

theorem rule_passes {b : Text} (hb : IsBackendName b) (holds : Text → Bool) :
    (ruleOf b).passes holds = holds b := by
  have hword := isWord_iff.mp (isWord_of_isName hb.isName)
  have hbang : '!' ∉ b := by
    intro hmem
    have hname := hb.isName
    rw [isName, Bool.and_eq_true] at hname
    have hchar := List.all_eq_true.mp hname.2 '!' hmem
    cases hchar
  have htake : b.takeWhile (· == '!') = [] := by
    cases b with
    | nil => rfl
    | cons c b =>
      have hc : (c == '!') = false := by
        rw [beq_eq_false_iff_ne]
        intro heq
        exact hbang (heq ▸ List.mem_cons_self)
      rw [List.takeWhile_cons, hc]
      rfl
  have hdrop : b.dropWhile (· == '!') = b := by
    have hsplit := List.takeWhile_append_dropWhile (p := (· == '!')) (l := b)
    rw [htake, List.nil_append] at hsplit
    exact hsplit
  have hbar : b ≠ "||".toList := by
    intro heq
    have hname := hb.isName
    rw [heq] at hname
    cases hname
  unfold Rule.passes ruleOf
  dsimp only
  rw [if_pos rfl, condPasses, htake, hdrop]
  rw [if_neg hword.2, if_neg (not_or.mpr ⟨hb.not_or, hbar⟩), condPasses]
  cases holds b <;> rfl

theorem switch_withBackends {fe : Proxy} (hrules : fe.switchingRules = []) {domain : Text}
    {names : List Text} (hnames : ∀ b ∈ names, IsBackendName b)
    (hfresh : ∀ b ∈ names, ∀ a ∈ fe.acls, a.name ≠ b) (hosts : List Text) :
    (withBackends fe domain names).switch hosts = names.find? (reaches domain hosts) := by
  have hholds : ∀ b ∈ names, (withBackends fe domain names).aclHolds hosts b =
      reaches domain hosts b := by
    intro b hb
    have hold : fe.acls.any (fun a => a.name == b && hosts.any a.accepts) = false := by
      rw [List.any_eq_false]
      intro a ha
      simp [hfresh b hb a ha]
    have hnew : (names.map (aclOf domain)).any (fun a => a.name == b && hosts.any a.accepts) =
        reaches domain hosts b := by
      rw [Bool.eq_iff_iff, List.any_eq_true]
      apply Iff.intro
      · intro h
        obtain ⟨a, ha, haccepts⟩ := h
        obtain ⟨b', -, rfl⟩ := List.mem_map.mp ha
        rw [Bool.and_eq_true, beq_iff_eq] at haccepts
        have hname : b' = b := haccepts.1
        rw [hname] at haccepts
        simpa [aclOf, Acl.accepts, reaches] using haccepts.2
      · intro h
        refine ⟨aclOf domain b, List.mem_map_of_mem hb, ?_⟩
        simpa [aclOf, Acl.accepts, reaches] using h
    rw [Proxy.aclHolds, withBackends, List.any_append, hold, Bool.false_or, hnew]
  rw [Proxy.switch, withBackends, hrules, List.nil_append]
  dsimp only
  rw [List.find?_map, Option.map_map]
  have hcongr : ∀ {p q : Text → Bool} {names : List Text}, (∀ b ∈ names, p b = q b) →
      names.find? p = names.find? q := by
    intro p q names hpq
    induction names with
    | nil => rfl
    | cons b names ih =>
      rw [List.forall_mem_cons] at hpq
      rw [List.find?_cons, List.find?_cons, hpq.1, ih hpq.2]
  have hfind : names.find? ((fun r : Rule => r.passes
      ((withBackends fe domain names).aclHolds hosts)) ∘ ruleOf) =
        names.find? (reaches domain hosts) := by
    apply hcongr
    intro b hb
    rw [Function.comp_apply, rule_passes (hnames b hb), hholds b hb]
  have hid : Rule.backend ∘ ruleOf = id := rfl
  rw [withBackends, hrules, List.nil_append] at hfind
  rw [hfind, hid, Option.map_id_fun, id]

/-! ## The whole text -/

/-- A template whose two calls stand on lines of their own. -/
structure IsPage (t : Template) (above between below : List Text) : Prop where
  above_eq : t.above = Text.unlines above
  between_eq : t.between = '\n' :: Text.unlines between
  below_eq : t.below = '\n' :: Text.unlines below
  no_newline : ∀ l ∈ above ++ between ++ below, '\n' ∉ l
  domain : Plain t.domain

def Template.keys (t : Template) (p : Process) : List Text := p.keys ++ t.prefixes.getD []

/-- The instances that are included in a run, and the names of their backends. -/
def Template.served (t : Template) (p : Process) : List Instance :=
  included (t.keys p) p.instances

def Template.nameOf (t : Template) (i : Instance) : Text := backendName (t.prefixes.getD []) i

def Template.names (t : Template) (p : Process) : List Text :=
  namesOf (t.keys p) (t.prefixes.getD []) p.instances

def Template.serversOf (t : Template) (p : Process) (name : Text) : List Instance :=
  (t.served p).filter fun i => t.nameOf i = name

/-- What is included can be written down. -/
structure Template.Writes (t : Template) (p : Process) : Prop where
  name : ∀ i ∈ t.served p, IsBackendName (t.nameOf i)
  server : ∀ i ∈ t.served p, IsServer i

section Pages

variable {t : Template} {p : Process} {above between below : List Text}

def backendsLines (t : Template) (p : Process) (options : Options) : List Text :=
  (t.names p).flatMap fun b => backendLines options t.backendIndent t.cookie b
    ((t.serversOf p b).map (named (t.prefixes.getD [])))

/-- The lines of the configuration. -/
def configLines (t : Template) (p : Process) (above between below : List Text)
    (options : Options) : List Text :=
  above ++ [] :: aclLines t.aclsIndent t.domain (t.names p) ++ between ++
    [] :: backendsLines t p options ++ below

theorem mem_names {b : Text} : b ∈ t.names p ↔ ∃ i ∈ t.served p, t.nameOf i = b := by
  unfold Template.names namesOf
  rw [mem_addBackend, List.mem_map]
  simp only [List.not_mem_nil, false_or]
  rfl

theorem Template.Writes.names (h : t.Writes p) : ∀ b ∈ t.names p, IsBackendName b := by
  intro b hb
  obtain ⟨i, hi, rfl⟩ := mem_names.mp hb
  exact h.name i hi

theorem generate_text {options : Options} (ht : backendTemplates t.templateName = some options)
    (hpage : IsPage t above between below) :
    (generateHaproxyConfig t p).map Prod.fst =
      some (Text.unlines (configLines t p above between below options)) := by
  have hgenerate : generate (collect (t.keys p) (t.prefixes.getD []) p.instances) t.templateName
      t.backendIndent t.cookie = some (led (backendsLines t p options)) := by
    rw [generate_led ht, collect_names]
    congr 2
    unfold backendsLines
    congr 1
    funext b
    rw [collect_servers]
    rfl
  unfold generateHaproxyConfig
  dsimp only
  rw [← Template.keys, hgenerate]
  rw [Option.map_some, Option.map_some, aclsText_eq, collect_names, hpage.above_eq,
    hpage.between_eq, hpage.below_eq]
  dsimp only
  rw [configLines, unlines_append, unlines_append, unlines_append, unlines_append]
  congr 1
  have hacls := led_unlines (aclLines t.aclsIndent t.domain (t.names p)) []
  rw [List.append_nil] at hacls
  have hbackends := led_unlines (backendsLines t p options) []
  rw [List.append_nil] at hbackends
  rw [← hacls, ← hbackends]
  simp [Template.names, Template.keys]

theorem options_words {templateName : Text} {options : Options}
    (h : backendTemplates templateName = some options) :
    ∀ o ∈ options, isWord o.1 = true ∧ isWord o.2 = true := by
  unfold backendTemplates at h
  split at h
  · injection h with h
    subst h
    decide
  · split at h
    · injection h with h
      subst h
      decide
    · cases h

theorem Template.Writes.servers (h : t.Writes p) (b : Text) :
    ∀ i ∈ (t.serversOf p b).map (named (t.prefixes.getD [])), IsServer i := by
  intro i hi
  obtain ⟨j, hj, rfl⟩ := List.mem_map.mp hi
  have hserver := h.server j (List.mem_of_mem_filter hj)
  exact ⟨hserver.id, by rw [named_server]; exact hserver.address⟩

theorem config_no_newline {options : Options} (hpage : IsPage t above between below)
    (h : t.Writes p) (ht : backendTemplates t.templateName = some options) :
    ∀ l ∈ configLines t p above between below options, '\n' ∉ l := by
  have hisName : ∀ b ∈ t.names p, isName b = true := fun b hb => (h.names b hb).isName
  have hacls := aclLines_no_newline hpage.domain t.aclsIndent hisName
  have hbackends : ∀ l ∈ backendsLines t p options, '\n' ∉ l := by
    intro l hl
    obtain ⟨b, hb, hl⟩ := List.mem_flatMap.mp hl
    exact backendLines_no_newline (options_words ht) _ _ (hisName b hb) (h.servers b) l hl
  have hpieces := hpage.no_newline
  simp only [List.forall_mem_append] at hpieces
  rw [configLines]
  simp only [List.forall_mem_append, List.forall_mem_cons]
  exact ⟨⟨⟨⟨hpieces.1.1, List.not_mem_nil, hacls⟩, hpieces.1.2⟩, List.not_mem_nil, hbackends⟩,
    hpieces.2⟩

end Pages

/-! ## Requests -/

/-- What haproxy makes of the text around the two calls: the first of them is in a frontend that
has no rules of its own. -/
structure Surrounds (net : Network) (above between below : List Text) (fe : Proxy)
    (done inner tail : List Proxy) : Prop where
  reads_above : readLines net [] above = some (fe :: done)
  reads_between : readLines net [] between = some inner
  reads_below : readLines net [] below = some tail
  frontend : fe.kind = "frontend".toList
  no_rules : fe.switchingRules = []
  first : ∀ q ∈ done, (isFrontend q && q.name == fe.name) = false

/-- The names of the backends are used for nothing else. -/
structure Fresh (names : List Text) (fe : Proxy) (done inner : List Proxy) : Prop where
  acls : ∀ b ∈ names, ∀ a ∈ fe.acls, a.name ≠ b
  backends : ∀ b ∈ names, ∀ q ∈ done ++ inner, (isBackend q && q.name == b) = false

section Requests

variable {net : Network} {t : Template} {p : Process} {above between below : List Text}
  {fe : Proxy} {done inner tail : List Proxy}

theorem hasAddress_served : ((t.names p).all fun b =>
    ((t.serversOf p b).map (named (t.prefixes.getD []))).all (hasAddress net)) =
      (t.served p).all (hasAddress net) := by
  have hnamed : ∀ i : Instance, hasAddress net (named (t.prefixes.getD []) i) =
      hasAddress net i := by
    intro i
    rw [hasAddress, named_server, hasAddress]
  rw [Bool.eq_iff_iff]
  simp only [List.all_eq_true, List.forall_mem_map, hnamed, Template.serversOf, List.mem_filter,
    decide_eq_true_eq, and_imp]
  apply Iff.intro
  · intro h i hi
    exact h (t.nameOf i) (mem_names.mpr ⟨i, hi, rfl⟩) i hi rfl
  · intro h b _ i hi _
    exact h i hi

theorem readLines_config {options : Options}
    (ht : backendTemplates "default".toList = some options) (hdomain : Plain t.domain)
    (h : t.Writes p) (hs : Surrounds net above between below fe done inner tail) :
    readLines net [] (configLines t p above between below options) =
      if (t.served p).all (hasAddress net) then some (tail ++
        (((t.names p).map fun b => backendOf b
          ((t.serversOf p b).map (named (t.prefixes.getD [])))).reverse ++
            (inner ++ withBackends fe t.domain (t.names p) :: done)))
      else none := by
  have hfrontend : isProxy fe = true := by
    rw [isProxy, hs.frontend]
    decide
  have hbetween := readLines_below hs.reads_between (withBackends fe t.domain (t.names p) :: done)
  have hbackends : readLines net (inner ++ withBackends fe t.domain (t.names p) :: done)
      (backendsLines t p options) = _ := readLines_backends ht t.backendIndent t.cookie
        (fun b hb => (h.names b hb).isName) (fun b _ => h.servers b) _
  rw [hasAddress_served] at hbackends
  have hbelow := readLines_below hs.reads_below (((t.names p).map fun b => backendOf b
    ((t.serversOf p b).map (named (t.prefixes.getD [])))).reverse ++
      (inner ++ withBackends fe t.domain (t.names p) :: done))
  rw [configLines, readLines_append, readLines_append, readLines_append, readLines_append,
    hs.reads_above, Option.bind_some, readLines_cons (readLine_blank _),
    readLines_acls hdomain t.aclsIndent h.names hfrontend done, Option.bind_some]
  rw [List.nil_append] at hbetween
  rw [hbetween, Option.bind_some, readLines_cons (readLine_blank _), hbackends]
  split
  · exact hbelow
  · rfl

theorem findFrontend_withBackends {names : List Text} {domain : Text} {others : List Proxy}
    (hs : Surrounds net above between below fe done inner tail) :
    findFrontend (done.reverse ++ withBackends fe domain names :: others) fe.name =
      some (withBackends fe domain names) := by
  have hdone : done.reverse.find? (fun q => isFrontend q && q.name == fe.name) = none := by
    rw [List.find?_eq_none]
    intro q hq
    rw [hs.first q (List.mem_reverse.mp hq)]
    exact Bool.false_ne_true
  have hthis : (isFrontend (withBackends fe domain names) &&
      (withBackends fe domain names).name == fe.name) = true := by
    simp [isFrontend, withBackends, hs.frontend]
  rw [findFrontend, List.find?_append, hdone, Option.none_or, List.find?_cons, hthis]

theorem find?_backendOf {names : List Text} {servers : Text → List Instance} {b : Text}
    (hb : b ∈ names) : (names.map fun b => backendOf b (servers b)).find?
      (fun q => isBackend q && q.name == b) = some (backendOf b (servers b)) := by
  induction names with
  | nil => cases hb
  | cons c names ih =>
    have hkind : isBackend (backendOf c (servers c)) = true := rfl
    have hname : (backendOf c (servers c)).name = c := rfl
    rw [List.map_cons, List.find?_cons, hkind, Bool.true_and, hname]
    by_cases hc : c = b
    · rw [hc, beq_self_eq_true]
    · rw [beq_eq_false_iff_ne.mpr hc]
      exact ih ((List.mem_cons.mp hb).resolve_left (Ne.symm hc))

theorem findBackend_backendOf {names : List Text} {domain : Text} {others : List Proxy}
    (hs : Surrounds net above between below fe done inner tail) {servers : Text → List Instance}
    {b : Text} (hb : b ∈ names)
    (hfresh : ∀ q ∈ done ++ inner, (isBackend q && q.name == b) = false) :
    findBackend (done.reverse ++ withBackends fe domain names :: (inner.reverse ++
      ((names.map fun b => backendOf b (servers b)) ++ others))) b =
        some (backendOf b (servers b)) := by
  have hnone : ∀ {ps : List Proxy}, (∀ q ∈ ps, (isBackend q && q.name == b) = false) →
      ps.find? (fun q => isBackend q && q.name == b) = none := by
    intro ps hps
    rw [List.find?_eq_none]
    intro q hq
    rw [hps q hq]
    exact Bool.false_ne_true
  have hdone := hnone fun q hq => hfresh q (List.mem_append_left _ (List.mem_reverse.mp hq))
  have hinner := hnone fun q hq => hfresh q (List.mem_append_right _ (List.mem_reverse.mp hq))
  have hfe : (isBackend (withBackends fe domain names) &&
      (withBackends fe domain names).name == b) = false := by
    have hkind : isBackend (withBackends fe domain names) = false := by
      rw [isBackend, withBackends, hs.frontend]
      decide
    rw [hkind, Bool.false_and]
  rw [findBackend, List.find?_append, hdone, Option.none_or, List.find?_cons, hfe,
    List.find?_append, hinner, Option.none_or, List.find?_append, find?_backendOf hb,
    Option.some_or]

/-- What haproxy reads is there exactly if it can make an address of every instance and no line is
too long for it. -/
theorem readcfgfile_config (hpage : IsPage t above between below) (h : t.Writes p)
    (ht : t.templateName = "default".toList)
    (hs : Surrounds net above between below fe done inner tail) {text : Text}
    (htext : (generateHaproxyConfig t p).map Prod.fst = some text) :
    readcfgfile net text =
      if (Text.lines text).all (fun line => fits (Text.chomp line)) ∧
          (t.served p).all (hasAddress net) then
        some (done.reverse ++ withBackends fe t.domain (t.names p) :: (inner.reverse ++
          (((t.names p).map fun b => backendOf b
            ((t.serversOf p b).map (named (t.prefixes.getD [])))) ++ tail.reverse)))
      else none := by
  obtain ⟨options, hoptions⟩ : ∃ options, backendTemplates "default".toList = some options :=
    ⟨_, rfl⟩
  have htemplate : backendTemplates t.templateName = some options := by rw [ht, hoptions]
  rw [generate_text htemplate hpage] at htext
  injection htext with htext
  subst htext
  have hlines := config_no_newline hpage h htemplate
  rw [readcfgfile_unlines hlines, readLines_config hoptions hpage.domain h hs,
    Text.lines_unlines hlines, List.all_map]
  simp only [Function.comp_def, Text.chomp_append]
  by_cases hfits : (configLines t p above between below options).all fits = true
  · by_cases haddress : (t.served p).all (hasAddress net) = true
    · rw [if_pos hfits, if_pos haddress, if_pos ⟨hfits, haddress⟩]
      simp
    · rw [if_pos hfits, if_neg haddress, if_neg fun hboth => haddress hboth.2]
      rfl
  · rw [if_neg hfits, if_neg fun hboth => hfits hboth.1]

/-- One instance whose port begins like a word takes all others away. -/
theorem word_refused (hpage : IsPage t above between below) (h : t.Writes p)
    (ht : t.templateName = "default".toList)
    (hs : Surrounds net above between below fe done inner tail) {text : Text}
    (htext : (generateHaproxyConfig t p).map Prod.fst = some text) {i : Instance}
    (hi : i ∈ t.served p) (hhost : isHostName i.privateDnsName = true) {c : Char} {rest : Text}
    (hport : i.tag "AppPort".toList = c :: rest) (hdigit : c.isDigit = false)
    (hsign : c ≠ '-' ∧ c ≠ '+') (hchars : ∀ d ∈ c :: rest, d ≠ ':' ∧ d ≠ '$' ∧ d ≠ '@') :
    readcfgfile net text = none := by
  have haddress : hasAddress net i = false := hasAddress_of_word hhost hport hdigit hsign hchars
  rw [readcfgfile_config hpage h ht hs htext, if_neg]
  intro hboth
  rw [List.all_eq_true.mp hboth.2 i hi] at haddress
  cases haddress

/-- **A request is served by the instances whose tags make the name in its header, in any case, and
by no others.** Where two names differ in case only, the first of them has it. The file is refused
if there is an instance that haproxy cannot make an address of, or a line that is too long. -/
theorem routed (hpage : IsPage t above between below) (h : t.Writes p)
    (ht : t.templateName = "default".toList)
    (hs : Surrounds net above between below fe done inner tail)
    (hfresh : Fresh (t.names p) fe done inner) :
    ∃ text, (generateHaproxyConfig t p).map Prod.fst = some text ∧
      ((readcfgfile net text).isSome ↔
        (∀ line ∈ Text.lines text, fits (Text.chomp line) = true) ∧
          ∀ i ∈ t.served p, hasAddress net i = true) ∧
      ∀ proxies, readcfgfile net text = some proxies →
        ∀ hosts, serversFor proxies fe.name hosts =
          ((t.served p).find? fun i => reaches t.domain hosts (t.nameOf i)).map fun i =>
            (t.serversOf p (t.nameOf i)).map serverOf := by
  obtain ⟨options, hoptions⟩ : ∃ options, backendTemplates "default".toList = some options :=
    ⟨_, rfl⟩
  have htext := generate_text (p := p) (by rw [ht, hoptions]) hpage
  have hread := readcfgfile_config hpage h ht hs htext
  refine ⟨_, htext, ?_, ?_⟩
  · rw [hread, ← List.all_eq_true, ← List.all_eq_true]
    split
    · rename_i hboth
      simp [hboth]
    · rename_i hboth
      simpa using hboth
  intro proxies hproxies hosts
  rw [hread] at hproxies
  split at hproxies
  · injection hproxies with hproxies
    subst hproxies
    have hfind : (t.names p).find? (reaches t.domain hosts) =
        ((t.served p).find? fun i => reaches t.domain hosts (t.nameOf i)).map t.nameOf := by
      unfold Template.names namesOf
      rw [find?_addBackend, List.nil_append, List.find?_map]
      rfl
    rw [serversFor, findFrontend_withBackends hs, Option.bind_eq_bind, Option.bind_some,
      switch_withBackends hs.no_rules h.names hfresh.acls, hfind]
    cases hserved : (t.served p).find? fun i => reaches t.domain hosts (t.nameOf i) with
    | none => rfl
    | some i =>
      have hname : t.nameOf i ∈ t.names p :=
        mem_names.mpr ⟨i, List.mem_of_find?_eq_some hserved, rfl⟩
      rw [Option.map_some, Option.bind_eq_bind, Option.bind_some,
        findBackend_backendOf hs hname (hfresh.backends _ hname)]
      simp [backendOf]
  · cases hproxies

end Requests

/-- The first option of a backend is on a line of its own. -/
theorem backendText_option (b : Backends) (option : Text × Text) (options : Options) (n : Nat)
    (cookie : Bool) (name : Text) : ∃ first rest, backendText b (option :: options) n cookie name =
      first ++ '\n' :: (optionLine n option ++ '\n' :: rest) := by
  obtain ⟨rest, hrest⟩ : ∃ rest, (options.flatMap fun option => '\n' :: optionLine n option) ++
      (if cookie then '\n' :: cookieLine n else []) ++ ['\n'] = '\n' :: rest := by
    cases options <;> cases cookie <;> exact ⟨_, rfl⟩
  refine ⟨"\n\n".toList ++ comment ++ "\nbackend ".toList ++ name, rest ++
    (b.includedInstances.filter fun i => i.tag "backend".toList = name).flatMap fun i =>
      '\n' :: serverLine n cookie i, ?_⟩
  have hcut := congrArg (· ++ (b.includedInstances.filter fun i =>
    i.tag "backend".toList = name).flatMap fun i => '\n' :: serverLine n cookie i) hrest
  simp only [List.append_assoc, List.cons_append] at hcut
  rw [← hcut]
  simp [backendText, List.flatMap_cons]

theorem generate_ssl {b : Backends} (n : Nat) (cookie : Bool) (h : b.allBackends ≠ []) :
    ∃ first rest, generate b "ssl-backend".toList n cookie =
      some (first ++ '\n' :: (optionLine n ("mode".toList, "https".toList) ++ '\n' :: rest)) := by
  obtain ⟨name, names, hnames⟩ := List.exists_cons_of_ne_nil h
  obtain ⟨options, hoptions⟩ : ∃ options, backendTemplates "ssl-backend".toList =
      some (("mode".toList, "https".toList) :: options) := ⟨_, rfl⟩
  obtain ⟨first, rest, hbackend⟩ := backendText_option b ("mode".toList, "https".toList) options n
    cookie name
  refine ⟨first, rest ++ names.flatMap (backendText b (("mode".toList, "https".toList) :: options)
    n cookie), ?_⟩
  rw [generate, hoptions, hnames]
  dsimp only
  rw [List.flatMap_cons, hbackend]
  simp

/-- **Haproxy refuses what the other template makes of any instance**, whatever its tags are and
whatever the template puts around it. -/
theorem ssl_refused (net : Network) (t : Template) (p : Process)
    (ht : t.templateName = "ssl-backend".toList) (hserved : t.served p ≠ []) :
    ∃ text, (generateHaproxyConfig t p).map Prod.fst = some text ∧
      readcfgfile net text = none := by
  obtain ⟨i, hi⟩ := List.exists_mem_of_ne_nil _ hserved
  have hname : t.nameOf i ∈ t.names p := mem_names.mpr ⟨i, hi, rfl⟩
  have hnames : (collect (t.keys p) (t.prefixes.getD []) p.instances).allBackends ≠ [] := by
    rw [collect_names]
    exact List.ne_nil_of_mem hname
  obtain ⟨first, rest, hgenerate⟩ := generate_ssl t.backendIndent t.cookie hnames
  rw [Template.keys] at hgenerate
  have htext : (generateHaproxyConfig t p).map Prod.fst = some ((t.above ++ aclsText
      (collect (t.keys p) (t.prefixes.getD []) p.instances) t.aclsIndent t.domain ++ t.between ++
        first) ++ '\n' :: (optionLine t.backendIndent ("mode".toList, "https".toList) ++
          '\n' :: (rest ++ t.below))) := by
    rw [generateHaproxyConfig, ht, hgenerate]
    simp [Template.keys]
  exact ⟨_, htext, readcfgfile_refused (https_no_newline _) (readLine_https _) _ _⟩

/-! ### A shop -/

def shopProcess : Process := ⟨requiredKeys, [shop]⟩

theorem shop_page (templateName : Text) : IsPage (shopTemplate templateName)
    ["frontend www".toList] ["frontend other".toList] [] where
  above_eq := rfl
  between_eq := rfl
  below_eq := rfl
  no_newline := by simp
  domain := by
    unfold shopTemplate
    simp [Plain, isPlain, isSpace, Markup.isSpace]

theorem shop_writes (templateName : Text) : (shopTemplate templateName).Writes shopProcess := by
  have hserved : (shopTemplate templateName).served shopProcess = [shop] := rfl
  have hname : (shopTemplate templateName).nameOf shop = "Shop".toList := rfl
  refine ⟨?_, ?_⟩
  · rw [hserved]
    simp only [List.forall_mem_cons, hname]
    exact ⟨⟨rfl, by simp, by simp [lower]⟩, List.forall_mem_nil _⟩
  · rw [hserved]
    simp only [List.forall_mem_cons]
    exact ⟨⟨rfl, (isWord_iff.mp rfl).1⟩, List.forall_mem_nil _⟩

def www : Proxy := ⟨"frontend".toList, "www".toList, [], [], []⟩

/-- A machine that can resolve the one private name. -/
def shopNetwork : Network := ⟨fun _ => [], fun _ name => name == shop.privateDnsName⟩

theorem shop_surrounds : Surrounds shopNetwork ["frontend www".toList] ["frontend other".toList] []
    www [] [{ www with name := "other".toList }] [] where
  reads_above := rfl
  reads_between := rfl
  reads_below := rfl
  frontend := rfl
  no_rules := rfl
  first := List.forall_mem_nil _

theorem shop_address : hasAddress shopNetwork shop = true := by
  rw [hasAddress_of_digits rfl rfl]
  decide

theorem shop_fits : ((generateHaproxyConfig (shopTemplate "default".toList) shopProcess).map
    Prod.fst).all (fun text => (Text.lines text).all fun line => fits (Text.chomp line))
      = true := by
  decide +kernel

theorem routed_shop : ∃ text proxies,
    (generateHaproxyConfig (shopTemplate "default".toList) shopProcess).map Prod.fst = some text ∧
      readcfgfile shopNetwork text = some proxies ∧
      ∀ hosts, serversFor proxies "www".toList hosts =
        (((shopTemplate "default".toList).served shopProcess).find? fun i => reaches
          "example.com".toList hosts ((shopTemplate "default".toList).nameOf i)).map fun i =>
            ((shopTemplate "default".toList).serversOf shopProcess
              ((shopTemplate "default".toList).nameOf i)).map serverOf := by
  obtain ⟨text, htext, htaken, hserved⟩ := routed (shop_page "default".toList)
    (shop_writes "default".toList) rfl shop_surrounds ⟨fun _ _ => List.forall_mem_nil _, by decide⟩
  have hfits := shop_fits
  rw [htext, Option.all_some, List.all_eq_true] at hfits
  have hshop : ∀ i ∈ (shopTemplate "default".toList).served shopProcess,
      hasAddress shopNetwork i = true := List.forall_mem_singleton.mpr shop_address
  obtain ⟨proxies, hproxies⟩ := Option.isSome_iff_exists.mp (htaken.mpr ⟨hfits, hshop⟩)
  exact ⟨text, proxies, htext, hproxies, hserved proxies hproxies⟩

theorem ssl_refused_shop : ∃ text,
    (generateHaproxyConfig (shopTemplate "ssl-backend".toList) shopProcess).map Prod.fst =
      some text ∧ readcfgfile shopNetwork text = none :=
  ssl_refused shopNetwork (shopTemplate "ssl-backend".toList) shopProcess rfl (by decide)

end Haproxy
end TdsAdmin
