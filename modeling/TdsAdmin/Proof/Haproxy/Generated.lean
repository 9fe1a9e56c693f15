import TdsAdmin.Proof.Haproxy.Reading

/-!
# Generated sections

What haproxy makes of the lines that `get_acls` and `generate` write: an ACL and a rule for each
backend in the frontend above them (`readLines_acls`), and a section for each backend with a server
for each of its instances, if it can make an address of each (`readLines_backends`).
-/

set_option autoImplicit false

namespace TdsAdmin
namespace Haproxy

/-! ## Statements -/

/-- A name with which haproxy can do what is meant: `or` joins conditions, and what begins with a
hyphen is an option. -/
structure IsBackendName (name : Text) : Prop where
  isName : isName name = true
  no_option : name.head? ≠ some '-'
  not_or : lower name ≠ "or".toList

def aclOf (domain backend : Text) : Acl := ⟨backend, true, [backend ++ '.' :: domain]⟩

def ruleOf (backend : Text) : Rule := ⟨backend, ["if".toList, backend]⟩

section Statements

variable {net : Network} {domain backend : Text}

theorem aclLine_eq (n : Nat) (domain backend : Text) : aclLine n domain backend = indent n ++
    spaced ["acl".toList, backend, "hdr(host)".toList, "-i".toList, backend ++ '.' :: domain] := by
  simp [aclLine, spaced]

theorem useLine_eq (n : Nat) (backend : Text) : useLine n backend = indent n ++
    spaced ["use_backend".toList, backend, "if".toList, backend] := by
  simp [useLine, spaced]

theorem plain_pattern (hb : Plain backend) (hd : Plain domain) :
    Plain (backend ++ '.' :: domain) := by
  intro c hc
  rcases List.mem_append.mp hc with hc | hc
  · exact hb c hc
  · rcases List.mem_cons.mp hc with rfl | hc
    · rfl
    · exact hd c hc

theorem readLine_acl (hb : IsBackendName backend) (hd : Plain domain) (n : Nat) {p : Proxy}
    (hp : isProxy p = true) (above : List Proxy) :
    readLine net (p :: above) (aclLine n domain backend) =
      some ({ p with acls := p.acls ++ [aclOf domain backend] } :: above) := by
  have hword := isWord_of_isName hb.isName
  have hplain := isWord_iff.mp hword
  have hpattern : isWord (backend ++ '.' :: domain) = true :=
    isWord_iff.mpr ⟨plain_pattern hplain.1 hd, by simp⟩
  have hargs : readArgs [] (aclLine n domain backend) = ["acl".toList, backend,
      "hdr(host)".toList, "-i".toList, backend ++ '.' :: domain] := by
    rw [aclLine_eq]
    apply readArgs_words
    simp only [List.forall_mem_cons]
    exact ⟨rfl, hword, rfl, rfl, hpattern, List.forall_mem_nil _⟩
  have hflags : readFlags false ["-i".toList, backend ++ '.' :: domain] =
      some (true, [backend ++ '.' :: domain]) := by
    have hhead : (backend ++ '.' :: domain).head? ≠ some '-' := by
      rw [List.head?_append_of_ne_nil _ hplain.2]
      exact hb.no_option
    have hoption : ∀ option : Text, option.head? = some '-' → backend ++ '.' :: domain ≠ option :=
      fun option h heq => hhead (heq ▸ h)
    rw [readFlags, if_pos rfl, readFlags, if_neg (hoption _ rfl), if_neg (hoption _ rfl),
      if_neg hhead]
  rw [readLine_statement hargs (by decide) (by decide), parseStatement, if_pos rfl]
  simp only [parseAcl, hb.isName, Bool.not_true, if_neg Bool.false_ne_true, if_true, hflags, hp]
  rfl

theorem readLine_use (hb : IsBackendName backend) (n : Nat) {p : Proxy} (hp : isProxy p = true)
    (above : List Proxy) : readLine net (p :: above) (useLine n backend) =
      some ({ p with switchingRules := p.switchingRules ++ [ruleOf backend] } :: above) := by
  have hword := isWord_of_isName hb.isName
  have hargs : readArgs [] (useLine n backend) =
      ["use_backend".toList, backend, "if".toList, backend] := by
    rw [useLine_eq]
    apply readArgs_words
    simp only [List.forall_mem_cons]
    exact ⟨rfl, hword, rfl, hword, List.forall_mem_nil _⟩
  have huse : parseStatement net p "use_backend".toList [backend, "if".toList, backend] =
      if isProxy p then
        some { p with switchingRules := p.switchingRules ++ [ruleOf backend] }
      else none := rfl
  rw [readLine_statement hargs (by decide) (by decide), huse, if_pos hp]
  rfl

end Statements

/-! ## The frontend -/

def aclLines (n : Nat) (domain : Text) (names : List Text) : List Text :=
  (indent n ++ comment) :: names.flatMap fun b => [aclLine n domain b, useLine n b]

/-- A frontend with the ACLs and the rules of some backends. -/
def withBackends (p : Proxy) (domain : Text) (names : List Text) : Proxy :=
  { p with
    acls := p.acls ++ names.map (aclOf domain)
    switchingRules := p.switchingRules ++ names.map ruleOf }

variable {net : Network}

theorem readLines_cons {sections read : List Proxy} {line : Text} {lines : List Text}
    (h : readLine net sections line = some read) :
    readLines net sections (line :: lines) = readLines net read lines := by
  rw [readLines, List.foldlM_cons, h]
  rfl

theorem readLines_acls {domain : Text} (hd : Plain domain) (n : Nat) {names : List Text}
    (hnames : ∀ b ∈ names, IsBackendName b) {p : Proxy} (hp : isProxy p = true)
    (above : List Proxy) : readLines net (p :: above) (aclLines n domain names) =
      some (withBackends p domain names :: above) := by
  rw [aclLines, readLines_cons (readLine_comment _ n)]
  induction names generalizing p with
  | nil => simp [withBackends, readLines]
  | cons b names ih =>
    rw [List.forall_mem_cons] at hnames
    rw [List.flatMap_cons, List.cons_append, readLines_cons (readLine_acl hnames.1 hd n hp above),
      List.singleton_append, readLines_cons (readLine_use hnames.1 n (by exact hp) above),
      ih hnames.2 (by exact hp)]
    simp [withBackends]

/-! ## Addresses -/

theorem envExpand_of_plain {s : Text} (h : '$' ∉ s) : envExpand net s = s := by
  induction s with
  | nil => rw [envExpand]
  | cons c s ih =>
    rw [List.mem_cons, not_or] at h
    rw [envExpand, if_neg (Ne.symm h.1), ih h.2]

/-- What is behind the last colon is the port. -/
theorem inetRange_port {family : Family} {host port : Text} (h : ':' ∉ port) :
    inetRange net family (host ++ ':' :: port) =
      if str2ip net family host then portRange port else none := by
  have hmem : (host ++ ':' :: port).contains ':' = true := by simp
  have hback : (host ++ ':' :: port).reverse = port.reverse ++ ':' :: host.reverse := by simp
  have hnot : ∀ c ∈ port.reverse, (c != ':') = true := by
    intro c hc
    rw [bne_iff_ne]
    intro heq
    exact h (heq ▸ List.mem_reverse.mp hc)
  have htake : (port.reverse ++ ':' :: host.reverse).takeWhile (· != ':') = port.reverse := by
    rw [List.takeWhile_append_of_pos hnot]
    simp
  have hdrop : (port.reverse ++ ':' :: host.reverse).dropWhile (· != ':') =
      ':' :: host.reverse := by
    rw [List.dropWhile_append_of_pos hnot]
    simp
  unfold inetRange
  rw [if_pos hmem, if_pos hmem, hback, htake, hdrop]
  simp

/-- Letters, digits, hyphens and dots. -/
def isHostName (host : Text) : Bool := host.all fun c => c.isAlphanum || c == '-' || c == '.'

/-- A name and a port: the name must have an address, and the port must be one. -/
theorem isAddress_port {host port : Text} (hhost : isHostName host = true)
    (hport : ∀ c ∈ port, c ≠ ':' ∧ c ≠ '$' ∧ c ≠ '@') :
    isAddress net (host ++ ':' :: port) = (str2ip net .unspec host && (portRange port).any
      fun ports => ports.1 == 0 || ports.2 == 0 || ports.1 == ports.2) := by
  have hlacks : ∀ {c : Char}, (c.isAlphanum || c == '-' || c == '.') = false → c ∉ host := by
    intro c hc hmem
    rw [List.all_eq_true.mp hhost c hmem] at hc
    cases hc
  have hdollar : '$' ∉ host ++ ':' :: port := by
    simp only [List.mem_append, List.mem_cons, not_or]
    exact ⟨hlacks rfl, by decide, fun hmem => (hport _ hmem).2.1 rfl⟩
  have hat : '@' ∉ host ++ ':' :: port := by
    simp only [List.mem_append, List.mem_cons, not_or]
    exact ⟨hlacks rfl, by decide, fun hmem => (hport _ hmem).2.2 rfl⟩
  have hlead : ∀ {lead : Text}, '@' ∈ lead →
      ¬ lead.isPrefixOf (host ++ ':' :: port) = true := by
    intro lead hlead h
    exact hat ((List.isPrefixOf_iff_prefix.mp h).subset hlead)
  have hslash : ¬ (host ++ ':' :: port).head? = some '/' := by
    intro h
    cases host with
    | nil => cases h
    | cons c host =>
      have hc : c = '/' := Option.some.inj h
      subst hc
      exact hlacks (c := '/') rfl List.mem_cons_self
  have hcolon : ':' ∉ port := fun hmem => (hport _ hmem).1 rfl
  unfold isAddress str2saRange
  rw [envExpand_of_plain hdollar]
  dsimp only
  rw [if_neg (hlead (by decide)), if_neg (hlead (by decide)), if_neg (hlead (by decide)),
    if_neg (hlead (by decide)), if_neg hslash, if_neg (hlead (by decide)),
    inetRange_port hcolon]
  cases str2ip net .unspec host <;> rfl

/-! ## The backends -/

/-- What haproxy knows of an instance. -/
def serverOf (i : Instance) : Text × Text :=
  (i.id, i.privateDnsName ++ ':' :: i.tag "AppPort".toList)

/-- Haproxy can make an address of what is written. -/
def hasAddress (net : Network) (i : Instance) : Bool := isAddress net (serverOf i).2

/-- An instance that can be written down. -/
structure IsServer (i : Instance) : Prop where
  id : isName i.id = true
  address : Plain (serverOf i).2

/-- With a number for a port all that matters is that the name can be resolved. -/
theorem hasAddress_of_digits {i : Instance} (hhost : isHostName i.privateDnsName = true)
    (hport : (i.tag "AppPort".toList).all Char.isDigit = true) :
    hasAddress net i = str2ip net .unspec i.privateDnsName := by
  have hdigit : ∀ {c : Char}, c.isDigit = false → c ∉ i.tag "AppPort".toList := by
    intro c hc hmem
    rw [List.all_eq_true.mp hport c hmem] at hc
    cases hc
  have hchars : ∀ c ∈ i.tag "AppPort".toList, c ≠ ':' ∧ c ≠ '$' ∧ c ≠ '@' := by
    intro c hc
    refine ⟨?_, ?_, ?_⟩ <;> rintro rfl <;> exact hdigit rfl hc
  have hrange : (portRange (i.tag "AppPort".toList)).any
      (fun ports => ports.1 == 0 || ports.2 == 0 || ports.1 == ports.2) = true := by
    cases htag : i.tag "AppPort".toList with
    | nil => rfl
    | cons c port =>
      have hc : c.isDigit = true := List.all_eq_true.mp hport c (htag ▸ List.mem_cons_self)
      have hdrop : (c :: port).dropWhile (· != '-') = [] := by
        apply List.dropWhile_eq_nil_iff.mpr
        intro d hd
        rw [bne_iff_ne]
        intro heq
        exact hdigit rfl (htag ▸ heq ▸ hd)
      rw [portRange, if_pos hc, hdrop]
      simp
  rw [hasAddress, serverOf, isAddress_port hhost hchars, hrange, Bool.and_true]

/-- What begins like a word is no port. -/
theorem hasAddress_of_word {i : Instance} (hhost : isHostName i.privateDnsName = true)
    {c : Char} {rest : Text} (hport : i.tag "AppPort".toList = c :: rest)
    (hdigit : c.isDigit = false) (hsign : c ≠ '-' ∧ c ≠ '+')
    (hchars : ∀ d ∈ c :: rest, d ≠ ':' ∧ d ≠ '$' ∧ d ≠ '@') : hasAddress net i = false := by
  have hrange : portRange (c :: rest) = none := by
    rw [portRange, hdigit, if_neg Bool.false_ne_true, if_neg hsign.1, if_neg hsign.2]
  rw [hasAddress, serverOf, hport, isAddress_port hhost hchars, hrange]
  simp

theorem serverLine_eq (n : Nat) (cookie : Bool) (i : Instance) : serverLine n cookie i =
    indent n ++ spaced (["server".toList, i.id, (serverOf i).2] ++
      if cookie then ["cookie".toList, i.id] else []) := by
  cases cookie <;> simp [serverLine, serverOf, spaced]

theorem serverWords {i : Instance} (h : IsServer i) (cookie : Bool) :
    ∀ w ∈ ["server".toList, i.id, (serverOf i).2] ++ if cookie then ["cookie".toList, i.id] else [],
      isWord w = true := by
  have hid := isWord_of_isName h.id
  have haddress : isWord (serverOf i).2 = true := isWord_iff.mpr ⟨h.address, by simp [serverOf]⟩
  intro w hw
  rw [List.mem_append, List.mem_cons, List.mem_cons, List.mem_singleton] at hw
  rcases hw with (rfl | rfl | rfl) | hw
  · rfl
  · exact hid
  · exact haddress
  · cases cookie with
    | false => cases hw
    | true =>
      rw [if_pos rfl, List.mem_cons, List.mem_singleton] at hw
      rcases hw with rfl | rfl
      · rfl
      · exact hid

theorem readLine_server {i : Instance} (h : IsServer i) (n : Nat) (cookie : Bool) {p : Proxy}
    (hp : isBackend p = true) (above : List Proxy) :
    readLine net (p :: above) (serverLine n cookie i) =
      if hasAddress net i then some ({ p with servers := p.servers ++ [serverOf i] } :: above)
      else none := by
  have hargs : readArgs [] (serverLine n cookie i) = "server".toList :: i.id :: (serverOf i).2 ::
      if cookie then ["cookie".toList, i.id] else [] := by
    rw [serverLine_eq]
    exact readArgs_words (serverWords h cookie) n
  rw [readLine_statement hargs (by decide) (by decide)]
  have hserver : parseStatement net p "server".toList (i.id :: (serverOf i).2 ::
      if cookie then ["cookie".toList, i.id] else []) =
        if isBackend p && isName i.id && isAddress net (serverOf i).2 then
          some { p with servers := p.servers ++ [serverOf i] }
        else none := rfl
  rw [hserver, hp, h.id, Bool.true_and, Bool.true_and, hasAddress]
  split <;> rfl

theorem readLines_servers {n : Nat} {cookie : Bool} {instances : List Instance}
    (h : ∀ i ∈ instances, IsServer i) {p : Proxy} (hp : isBackend p = true) (above : List Proxy) :
    readLines net (p :: above) (instances.map (serverLine n cookie)) =
      if instances.all (hasAddress net) then
        some ({ p with servers := p.servers ++ instances.map serverOf } :: above)
      else none := by
  induction instances generalizing p with
  | nil => simp [readLines]
  | cons i instances ih =>
    rw [List.forall_mem_cons] at h
    have hline : readLine net (p :: above) (serverLine n cookie i) =
        if hasAddress net i then some ({ p with servers := p.servers ++ [serverOf i] } :: above)
        else none := readLine_server h.1 n cookie hp above
    rw [List.map_cons, List.all_cons]
    cases haddress : hasAddress net i with
    | false =>
      rw [haddress, if_neg Bool.false_ne_true] at hline
      rw [readLines, List.foldlM_cons, hline]
      rfl
    | true =>
      rw [haddress, if_pos rfl] at hline
      rw [readLines_cons hline, ih h.2 (by exact hp)]
      simp

def newBackend (name : Text) : Proxy := ⟨"backend".toList, name, [], [], []⟩

theorem readLine_backend {b : Text} (hb : isName b = true) (sections : List Proxy) :
    readLine net sections ("backend ".toList ++ b) = some (newBackend b :: sections) := by
  have hline : "backend ".toList ++ b = indent 0 ++ spaced ["backend".toList, b] := by
    simp [spaced, indent]
  have hargs : readArgs [] ("backend ".toList ++ b) = ["backend".toList, b] := by
    rw [hline]
    apply readArgs_words
    simp only [List.forall_mem_cons]
    exact ⟨rfl, isWord_of_isName hb, List.forall_mem_nil _⟩
  have hkind : proxyKinds.contains "backend".toList = true := by decide
  rw [readLine, hargs]
  dsimp only
  rw [hkind, if_pos rfl, List.headD_cons, if_pos hb]
  rfl

theorem optionLine_eq (n : Nat) (option : Text × Text) :
    optionLine n option = indent n ++ spaced [option.1, option.2] := by
  simp [optionLine, spaced]

theorem readLine_option {option : Text × Text} (h : ∀ w ∈ [option.1, option.2], isWord w = true)
    (hkind : proxyKinds.contains option.1 = false)
    (hother : otherSections.contains option.1 = false) (n : Nat) (p : Proxy)
    (above : List Proxy) : readLine net (p :: above) (optionLine n option) =
      (parseStatement net p option.1 [option.2]).map (· :: above) := by
  have hargs : readArgs [] (optionLine n option) = [option.1, option.2] := by
    rw [optionLine_eq]
    exact readArgs_words h n
  exact readLine_statement hargs hkind hother p above

theorem cookieLine_eq (n : Nat) : cookieLine n = indent n ++ spaced ["cookie".toList,
    "SERVERID".toList, "insert".toList, "indirect".toList, "nocache".toList] := by
  simp [cookieLine, spaced]

theorem readLine_cookie (n : Nat) (p : Proxy) (above : List Proxy) :
    readLine net (p :: above) (cookieLine n) = some (p :: above) := by
  have hargs : readArgs [] (cookieLine n) = ["cookie".toList, "SERVERID".toList,
      "insert".toList, "indirect".toList, "nocache".toList] := by
    rw [cookieLine_eq]
    apply readArgs_words
    decide
  rw [readLine_statement hargs (by decide) (by decide)]
  rfl

theorem readLines_default (n : Nat) {options : Options}
    (h : backendTemplates "default".toList = some options) {p : Proxy}
    (hp : otherKinds.contains p.kind = false) (above : List Proxy) :
    readLines net (p :: above) (options.map (optionLine n)) = some (p :: above) := by
  rw [backendTemplates, if_pos rfl] at h
  injection h with h
  subst h
  have hmode : parseStatement net p "mode".toList ["http".toList] =
      if modes.contains "http".toList && !otherKinds.contains p.kind then some p else none := rfl
  have hread : readLine net (p :: above) (optionLine n ("mode".toList, "http".toList)) =
      (parseStatement net p "mode".toList ["http".toList]).map (· :: above) :=
    readLine_option (by decide) rfl rfl n p above
  rw [hmode, hp] at hread
  simp only [List.map_cons, List.map_nil]
  rw [readLines_cons hread, readLines_cons (readLine_option (by decide) rfl rfl n p above),
    readLines_cons (readLine_option (by decide) rfl rfl n p above)]
  rfl

/-- A line with a mode that haproxy does not know is refused, wherever it stands. -/
theorem readLine_https (n : Nat) (sections : List Proxy) :
    readLine net sections (optionLine n ("mode".toList, "https".toList)) = none := by
  cases sections with
  | cons p above =>
    rw [readLine_option (by decide) rfl rfl]
    rfl
  | nil =>
    have hargs : readArgs [] (optionLine n ("mode".toList, "https".toList)) =
        ["mode".toList, "https".toList] := by
      rw [optionLine_eq]
      exact readArgs_words (by decide) n
    rw [readLine, hargs]
    rfl

theorem https_no_newline (n : Nat) : '\n' ∉ optionLine n ("mode".toList, "https".toList) := by
  rw [optionLine_eq]
  exact newline_not_mem (by decide) n

/-- The lines of one backend. -/
def backendLines (options : Options) (n : Nat) (cookie : Bool) (b : Text)
    (instances : List Instance) : List Text :=
  [[], comment, "backend ".toList ++ b] ++ options.map (optionLine n) ++
    (if cookie then [cookieLine n] else []) ++ [] :: instances.map (serverLine n cookie)

def backendOf (b : Text) (instances : List Instance) : Proxy :=
  { newBackend b with servers := instances.map serverOf }

theorem readLines_options {b : Text} (hb : isName b = true) (options : Options) (n : Nat)
    (sections : List Proxy) :
    readLines net sections ([[], comment, "backend ".toList ++ b] ++ options.map (optionLine n)) =
      readLines net (newBackend b :: sections) (options.map (optionLine n)) := by
  have hcomment : readLine net sections comment = some sections := readLine_comment sections 0
  rw [readLines_append, readLines_cons (readLine_blank sections), readLines_cons hcomment,
    readLines_cons (readLine_backend hb sections)]
  rfl

theorem readLines_backend {options : Options} (h : backendTemplates "default".toList = some options)
    (n : Nat) (cookie : Bool) {b : Text} (hb : isName b = true) {instances : List Instance}
    (hservers : ∀ i ∈ instances, IsServer i) (sections : List Proxy) :
    readLines net sections (backendLines options n cookie b instances) =
      if instances.all (hasAddress net) then some (backendOf b instances :: sections)
      else none := by
  have hcookie : readLines net (newBackend b :: sections) (if cookie then [cookieLine n] else []) =
      some (newBackend b :: sections) := by
    cases cookie with
    | false => rfl
    | true => exact readLines_cons (readLine_cookie n _ _)
  rw [backendLines, readLines_append, readLines_append, readLines_options hb,
    readLines_default n h (by rfl), Option.bind_some, hcookie, Option.bind_some,
    readLines_cons (readLine_blank _), readLines_servers hservers rfl]
  rfl

theorem readLines_backends {options : Options}
    (h : backendTemplates "default".toList = some options) (n : Nat) (cookie : Bool)
    {names : List Text} (hnames : ∀ b ∈ names, isName b = true) {servers : Text → List Instance}
    (hservers : ∀ b ∈ names, ∀ i ∈ servers b, IsServer i) (sections : List Proxy) :
    readLines net sections (names.flatMap fun b => backendLines options n cookie b (servers b)) =
      if names.all fun b => (servers b).all (hasAddress net) then
        some ((names.map fun b => backendOf b (servers b)).reverse ++ sections)
      else none := by
  induction names generalizing sections with
  | nil => rfl
  | cons b names ih =>
    rw [List.forall_mem_cons] at hnames hservers
    rw [List.flatMap_cons, readLines_append,
      readLines_backend h n cookie hnames.1 hservers.1 sections, List.all_cons]
    cases haddress : (servers b).all (hasAddress net) with
    | false => rfl
    | true =>
      rw [if_pos rfl, Option.bind_some, ih hnames.2 hservers.2, Bool.true_and, List.map_cons,
        List.reverse_cons, List.append_assoc]
      rfl

/-! ## The text -/

/-- Lines with their newline in front. -/
def led (lines : List Text) : Text := lines.flatMap ('\n' :: ·)

theorem led_unlines (lines : List Text) (rest : Text) :
    led lines ++ '\n' :: rest = Text.unlines ([] :: lines) ++ rest := by
  induction lines with
  | nil => simp [led, Text.unlines]
  | cons line lines ih =>
    have hled : led (line :: lines) = '\n' :: line ++ led lines := rfl
    rw [hled, List.append_assoc, ih]
    simp [Text.unlines]

theorem unlines_append (first second : List Text) :
    Text.unlines (first ++ second) = Text.unlines first ++ Text.unlines second :=
  List.flatMap_append

theorem aclsText_eq (b : Backends) (n : Nat) (domain : Text) :
    aclsText b n domain = led (aclLines n domain b.allBackends) := by
  have hlines : ∀ names : List Text, (names.flatMap fun backend => '\n' ::
      aclLine n domain backend ++ '\n' :: useLine n backend) =
        led (names.flatMap fun backend => [aclLine n domain backend, useLine n backend]) := by
    intro names
    rw [led, List.flatMap_assoc]
    simp
  rw [aclsText, hlines]
  rfl

theorem backendText_eq (b : Backends) (options : Options) (n : Nat) (cookie : Bool)
    (backend : Text) : backendText b options n cookie backend =
      led (backendLines options n cookie backend
        (b.includedInstances.filter fun i => i.tag "backend".toList = backend)) := by
  unfold backendText
  cases cookie <;> simp [led, backendLines, List.flatMap_append, List.flatMap_map]

theorem generate_led {templateName : Text} {options : Options}
    (h : backendTemplates templateName = some options) (b : Backends) (n : Nat)
    (cookie : Bool) : generate b templateName n cookie = some (led (b.allBackends.flatMap
      fun name => backendLines options n cookie name
        (b.includedInstances.filter fun i => i.tag "backend".toList = name))) := by
  rw [generate, h]
  dsimp only
  congr 1
  rw [led, List.flatMap_assoc]
  congr 1
  funext name
  exact backendText_eq b options n cookie name

/-! ## No line is broken -/

theorem comment_no_newline (n : Nat) : '\n' ∉ indent n ++ comment := by
  intro hmem
  rcases List.mem_append.mp hmem with hmem | hmem
  · have hblank := List.eq_of_mem_replicate hmem
    cases hblank
  · unfold comment at hmem
    simp at hmem

theorem aclLines_no_newline {domain : Text} (hd : Plain domain) (n : Nat) {names : List Text}
    (hnames : ∀ b ∈ names, isName b = true) : ∀ l ∈ aclLines n domain names, '\n' ∉ l := by
  intro l hl
  rcases List.mem_cons.mp hl with rfl | hl
  · exact comment_no_newline n
  · obtain ⟨b, hb, hl⟩ := List.mem_flatMap.mp hl
    have hword := isWord_of_isName (hnames b hb)
    have hpattern : isWord (b ++ '.' :: domain) = true :=
      isWord_iff.mpr ⟨plain_pattern (isWord_iff.mp hword).1 hd, by simp⟩
    rw [List.mem_cons, List.mem_singleton] at hl
    rcases hl with rfl | rfl
    · rw [aclLine_eq]
      apply newline_not_mem
      simp only [List.forall_mem_cons]
      exact ⟨rfl, hword, rfl, rfl, hpattern, List.forall_mem_nil _⟩
    · rw [useLine_eq]
      apply newline_not_mem
      simp only [List.forall_mem_cons]
      exact ⟨rfl, hword, rfl, hword, List.forall_mem_nil _⟩

theorem serverLine_no_newline {i : Instance} (h : IsServer i) (n : Nat) (cookie : Bool) :
    '\n' ∉ serverLine n cookie i := by
  rw [serverLine_eq]
  exact newline_not_mem (serverWords h cookie) n

theorem backendLines_no_newline {options : Options}
    (hoptions : ∀ o ∈ options, isWord o.1 = true ∧ isWord o.2 = true) (n : Nat) (cookie : Bool)
    {b : Text} (hb : isName b = true) {instances : List Instance}
    (hservers : ∀ i ∈ instances, IsServer i) :
    ∀ l ∈ backendLines options n cookie b instances, '\n' ∉ l := by
  intro l hl
  simp only [backendLines, List.mem_append, List.mem_cons, List.not_mem_nil, or_false,
    List.mem_map] at hl
  rcases hl with (((rfl | rfl | rfl) | ⟨o, ho, rfl⟩) | hl) | rfl | ⟨i, hi, rfl⟩
  · simp
  · exact comment_no_newline 0
  · have hline : "backend ".toList ++ b = indent 0 ++ spaced ["backend".toList, b] := by
      simp [spaced, indent]
    rw [hline]
    apply newline_not_mem
    simp only [List.forall_mem_cons]
    exact ⟨rfl, isWord_of_isName hb, List.forall_mem_nil _⟩
  · rw [optionLine_eq]
    apply newline_not_mem
    simp only [List.forall_mem_cons]
    exact ⟨(hoptions o ho).1, (hoptions o ho).2, List.forall_mem_nil _⟩
  · cases cookie with
    | false => cases hl
    | true =>
      rw [if_pos rfl, List.mem_singleton] at hl
      rw [hl, cookieLine_eq]
      apply newline_not_mem
      decide
  · simp
  · exact serverLine_no_newline (hservers i hi) n cookie

end Haproxy
end TdsAdmin
