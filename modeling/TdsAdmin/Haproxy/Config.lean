import TdsAdmin.Lib.Markup

/-!
# What haproxy makes of its configuration

The part of haproxy 1.5.1 that chooses servers: a line is cut into words (`readcfgfile`), a section
begins a proxy, `acl` and `use_backend` fill a frontend and `server` a backend (`cfg_parse_listen`,
`parse_server`), a request is taken to the backend of the first rule whose condition passes
(`process_switching_rules`).

An ACL can be about anything in a request; here it is about the `Host` header or about nothing.
Keywords that have nothing to do with the choice are passed over, and a configuration that is
refused is `none`. What a server's address is depends on the machine that haproxy runs on, on its
environment and on the names that it can resolve (`Network`).
-/

set_option autoImplicit false

namespace TdsAdmin
namespace Haproxy

/-! ## Words -/

/-- `isspace` -/
def isSpace (c : Char) : Bool := Markup.isSpace c || c == '\x0b' || c == '\x0c'

/-- A word that has ended; there are no empty ones. -/
def endWord (word : Text) : List Text := if word = [] then [] else [word]

/-- The loop of `readcfgfile` over a line, with what there is of a word. The escape by two
hexadecimal digits is left out. -/
def readArgs : Text → Text → List Text
  | word, [] => endWord word
  | word, '\\' :: ' ' :: line => readArgs (word ++ [' ']) line
  | word, '\\' :: '\\' :: line => readArgs (word ++ ['\\']) line
  | word, '\\' :: '#' :: line => readArgs (word ++ ['#']) line
  | word, '\\' :: 'r' :: line => readArgs (word ++ ['\r']) line
  | word, '\\' :: 'n' :: line => readArgs (word ++ ['\n']) line
  | word, '\\' :: 't' :: line => readArgs (word ++ ['\t']) line
  | word, c :: line =>
      if c = '#' ∨ c = '\n' ∨ c = '\r' then endWord word
      else if isSpace c then endWord word ++ readArgs [] line
      else readArgs (word ++ [c]) line

/-- `!invalid_char` -/
def isName (name : Text) : Bool :=
  !name.isEmpty && name.all fun c => c.isAlphanum || c == '.' || c == ':' || c == '_' || c == '-'

/-! ## Addresses -/

/-- The families of addresses that `str2sa_range` asks for. -/
inductive Family where
  | unspec
  | inet
  | inet6
  deriving DecidableEq, Repr

/-- The machine that haproxy runs on. -/
structure Network where
  /-- A variable that is not set is empty. -/
  getenv : Text → Text
  /-- `inet_pton` or `gethostbyname` has an address of the family for the name. -/
  resolves : Family → Text → Bool

def isVarChar (c : Char) : Bool := c.isAlphanum || c == '_'

/-- What follows a `$`: the name of a variable, in braces or not, and the rest. -/
def takeVar (s : Text) : Text × Text :=
  if s.head? = some '{' then
    -- the brace at the end may be missing
    let behind := (s.drop 1).dropWhile isVarChar
    ((s.drop 1).takeWhile isVarChar, if behind.head? = some '}' then behind.drop 1 else behind)
  else (s.takeWhile isVarChar, s.dropWhile isVarChar)

theorem takeVar_length_le (s : Text) : (takeVar s).2.length ≤ s.length := by
  have hbehind := (List.dropWhile_sublist isVarChar (l := s.drop 1)).length_le
  have hdrop := (List.dropWhile_sublist isVarChar (l := s)).length_le
  unfold takeVar
  split
  · dsimp only
    split <;> simp_all <;> omega
  · exact hdrop

/-- `env_expand` -/
def envExpand (net : Network) : Text → Text
  | [] => []
  | c :: s =>
      if c = '$' then net.getenv (takeVar s).1 ++ envExpand net (takeVar s).2
      else c :: envExpand net s
  termination_by s => s.length
  decreasing_by
    · exact Nat.lt_succ_of_le (takeVar_length_le s)
    · exact Nat.lt_succ_self _

/-- `atoi`, as the bits of its result. -/
def atoi (s : Text) : Nat :=
  let s := s.dropWhile isSpace
  let digits := if s.head? = some '-' ∨ s.head? = some '+' then s.drop 1 else s
  let n : Int := Text.ofDecimal (digits.takeWhile Char.isDigit)
  -- `strtol` stops at the ends of a `long`, and the result is cut to an `int`
  let long := if s.head? = some '-' then max (-n) (-0x8000000000000000)
    else min n 0x7fffffffffffffff
  (long % 0x100000000).toNat

/-- `str2ip` -/
def str2ip (net : Network) (family : Family) (s : Text) : Bool :=
  if s = "::".toList then family != .inet
  else if s = [] ∨ s = "*".toList then true
  else net.resolves family s

/-- The two ports of `str2sa_range`. -/
def portRange : Text → Option (Nat × Nat)
  | [] => some (0, 0)
  | c :: port =>
      if c.isDigit then
        match (c :: port).dropWhile (· != '-') with
        | [] => some (atoi (c :: port), atoi (c :: port))
        | _ :: port2 => some (atoi ((c :: port).takeWhile (· != '-')), atoi port2)
      -- a port that is counted from the one of the request
      else if c = '-' then some (atoi port, 0)
      else if c = '+' then some (0, atoi port)
      else none

/-- The port is behind the last colon. -/
def inetRange (net : Network) (family : Family) (s : Text) : Option (Nat × Nat) :=
  let host := if s.contains ':' then ((s.reverse.dropWhile (· != ':')).drop 1).reverse else s
  let port := if s.contains ':' then (s.reverse.takeWhile (· != ':')).reverse else []
  if str2ip net family host then portRange port else none

def byteLength (s : Text) : Nat := s.foldl (fun n c => n + c.utf8Size) 0

/-- The path of a socket is as long as there is room for it. -/
def unixRange (path : Text) : Option (Nat × Nat) :=
  if byteLength path ≤ 107 then some (0, 0) else none

/-- `str2sa_range`, where nothing can be connected to a descriptor. -/
def str2saRange (net : Network) (str : Text) : Option (Nat × Nat) :=
  let s := envExpand net str
  if "unix@".toList.isPrefixOf s then unixRange (s.drop 5)
  else if "abns@".toList.isPrefixOf s then unixRange (s.drop 5)
  else if "ipv4@".toList.isPrefixOf s then inetRange net .inet (s.drop 5)
  else if "ipv6@".toList.isPrefixOf s then inetRange net .inet6 (s.drop 5)
  -- a socket of the machine itself
  else if s.head? = some '/' then unixRange s
  -- what is open already can be listened on only
  else if "fd@".toList.isPrefixOf s then none
  else inetRange net .unspec s

/-- A server has one port, or that of the request. -/
def isAddress (net : Network) (addr : Text) : Bool :=
  (str2saRange net addr).any fun ports => ports.1 == 0 || ports.2 == 0 || ports.1 == ports.2

/-! ## Sections -/

/-- The values of a `Host` header that an ACL accepts. -/
structure Acl where
  name : Text
  ignoreCase : Bool
  patterns : List Text

/-- A `use_backend`: the backend, and the words behind it. -/
structure Rule where
  backend : Text
  cond : List Text

structure Proxy where
  kind : Text
  name : Text
  acls : List Acl
  switchingRules : List Rule
  /-- The name and the address of each. -/
  servers : List (Text × Text)

/-- The options of `parse_acl_expr`, of which others than these two are refused. -/
def readFlags : Bool → List Text → Option (Bool × List Text)
  | ignoreCase, [] => some (ignoreCase, [])
  | ignoreCase, word :: words =>
      if word = "-i".toList then readFlags true words
      else if word = "--".toList then some (ignoreCase, words)
      else if word.head? = some '-' then none
      else some (ignoreCase, word :: words)

def parseAcl (name : Text) (expr : List Text) : Option Acl :=
  if !isName name then none
  else match expr with
    | [] => none
    | fetch :: words =>
        if fetch = "hdr(host)".toList then (readFlags false words).map fun r => ⟨name, r.1, r.2⟩
        else some ⟨name, false, []⟩

def modes : List Text := ["http".toList, "tcp".toList, "health".toList]

/-- The sections that `cfg_parse_listen` begins. -/
def proxyKinds : List Text :=
  ["listen".toList, "frontend".toList, "backend".toList, "ruleset".toList]

/-- The sections of other parsers, which know none of the keywords here. -/
def otherKinds : List Text := ["global".toList, "userlist".toList, "peers".toList]

/-- The sections without a name. -/
def otherSections : List Text := "defaults".toList :: otherKinds

def isProxy (p : Proxy) : Bool := proxyKinds.contains p.kind

def isBackend (p : Proxy) : Bool := p.kind == "backend".toList || p.kind == "listen".toList

def isFrontend (p : Proxy) : Bool := p.kind == "frontend".toList || p.kind == "listen".toList

/-- A statement of a section. In `defaults` there is neither a rule nor a server. -/
def parseStatement (net : Network) (p : Proxy) (keyword : Text) (args : List Text) :
    Option Proxy :=
  if keyword = "acl".toList then
    match args with
    | name :: expr =>
        if isProxy p then (parseAcl name expr).map fun acl => { p with acls := p.acls ++ [acl] }
        else none
    | [] => none
  else if keyword = "use_backend".toList then
    match args with
    | name :: cond =>
        if isProxy p then some { p with switchingRules := p.switchingRules ++ [⟨name, cond⟩] }
        else none
    | [] => none
  else if keyword = "server".toList then
    match args with
    | name :: addr :: _ =>
        -- a frontend has no servers
        if isBackend p && isName name && isAddress net addr then
          some { p with servers := p.servers ++ [(name, addr)] }
        else none
    | _ => none
  else if keyword = "mode".toList then
    if modes.contains (args.headD []) && !otherKinds.contains p.kind then some p else none
  else some p

/-- One line of `readcfgfile`, with the section that it is in first and those above it after it. -/
def readLine (net : Network) (sections : List Proxy) (line : Text) : Option (List Proxy) :=
  match readArgs [] line with
  | [] => some sections
  | keyword :: args =>
      if proxyKinds.contains keyword then
        if isName (args.headD []) then some (⟨keyword, args.headD [], [], [], []⟩ :: sections)
        else none
      else if otherSections.contains keyword then some (⟨keyword, [], [], [], []⟩ :: sections)
      else match sections with
        -- a statement in front of every section
        | [] => none
        | p :: above => (parseStatement net p keyword args).map (· :: above)

def readLines (net : Network) (sections : List Proxy) (lines : List Text) : Option (List Proxy) :=
  lines.foldlM (readLine net) sections

/-- With its newline a line must be shorter than `LINESIZE`. -/
def fits (line : Text) : Bool := byteLength line ≤ 2046

def readcfgfile (net : Network) (text : Text) : Option (List Proxy) :=
  if (Text.lines text).all fun line => fits (Text.chomp line) then
    (readLines net [] (Text.lines text)).map List.reverse
  else none

/-! ## The choice of a backend -/

def lower (s : Text) : Text := s.map Char.toLower

/-- One value of the header. -/
def Acl.accepts (a : Acl) (value : Text) : Bool :=
  a.patterns.any fun pattern =>
    if a.ignoreCase then lower pattern == lower value else pattern == value

/-- ACLs of one name are alternatives, and so are the values of the header. -/
def Proxy.aclHolds (p : Proxy) (hosts : List Text) (name : Text) : Bool :=
  p.acls.any fun a => a.name == name && hosts.any a.accepts

/-- `parse_acl_cond` and `acl_exec_cond`: words that are ACLs are joined by "and" to a suite, and
suites by `or`. A suite that is not begun yet is `none`, and `neg` is whether the next ACL is
negated. Expressions in braces are left out. -/
def condPasses (holds : Text → Bool) : Option Bool → Bool → List Text → Bool
  | suite, _, [] => suite == some true
  | suite, neg, word :: words =>
      let neg := neg ^^ ((word.takeWhile (· == '!')).length % 2 == 1)
      let name := word.dropWhile (· == '!')
      if name = [] then condPasses holds suite neg words
      -- the suite that ends here decides, or what comes after it
      else if lower name = "or".toList ∨ name = "||".toList then
        suite == some true || condPasses holds none false words
      else condPasses holds (some (suite.getD true && (holds name ^^ neg))) false words

/-- A rule without a condition passes. -/
def Rule.passes (r : Rule) (holds : Text → Bool) : Bool :=
  match r.cond with
  | [] => true
  | word :: words =>
      if word = "if".toList then condPasses holds none false words
      else if word = "unless".toList then !condPasses holds none false words
      else true

/-- `process_switching_rules` -/
def Proxy.switch (p : Proxy) (hosts : List Text) : Option Text :=
  (p.switchingRules.find? fun r => r.passes (p.aclHolds hosts)).map Rule.backend

/-- `findproxy`, for a backend -/
def findBackend (proxies : List Proxy) (name : Text) : Option Proxy :=
  proxies.find? fun p => isBackend p && p.name == name

def findFrontend (proxies : List Proxy) (name : Text) : Option Proxy :=
  proxies.find? fun p => isFrontend p && p.name == name

/-- The servers for a request to a frontend, if a rule of it passes. -/
def serversFor (proxies : List Proxy) (frontend : Text) (hosts : List Text) :
    Option (List (Text × Text)) := do
  let fe ← findFrontend proxies frontend
  let name ← fe.switch hosts
  let be ← findBackend proxies name
  some be.servers

end Haproxy
end TdsAdmin
