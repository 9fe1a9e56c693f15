import Mathlib.Logic.Function.Basic
import TdsAdmin.Lib.Text

/-!
# `haproxy_autoscale.py` and `update-haproxy.py`

A load balancer writes its own configuration: every running instance with the tags that are asked
for becomes a server of the backend that its tags name, and the service is restarted when the text
has changed.

The list `required_keys` belongs to the class and not to an object of it, so what a call of
`get_acls` appends to it is there in all later calls of the process. A template is the text around
one call of `get_acls` and one of `generate`, on an object of its own.
-/

set_option autoImplicit false

namespace TdsAdmin
namespace Haproxy

structure Instance where
  id : Text
  privateDnsName : Text
  tags : Text → Option Text

def Instance.tag (i : Instance) (key : Text) : Text := (i.tags key).getD []

def Instance.setTag (i : Instance) (key value : Text) : Instance :=
  { i with tags := Function.update i.tags key (some value) }

/-! ## `Backends` -/

/-- `required_keys` as the class has it at first. -/
def requiredKeys : List Text := ["AppName".toList, "AppPort".toList]

abbrev Options := List (Text × Text)

def backendTemplates (templateName : Text) : Option Options :=
  if templateName = "default".toList then
    some [("mode".toList, "http".toList), ("option".toList, "httpchk".toList),
      ("balance".toList, "roundrobin".toList)]
  else if templateName = "ssl-backend".toList then
    some [("mode".toList, "https".toList), ("option".toList, "httpchk".toList),
      ("balance".toList, "roundrobin".toList)]
  else none

def comment : Text := "# Autogenerated with haproxy_autoscale version 0.4.1".toList

/-- What `get_acls` leaves on the object. -/
structure Backends where
  allBackends : List Text
  includedInstances : List Instance
  excludedInstances : List Instance

def missingTags (keys : List Text) (i : Instance) : List Text :=
  keys.filter fun key => (i.tags key).isNone

def backendName (prefixes : List Text) (i : Instance) : Text :=
  (prefixes.flatMap fun key => i.tag key ++ ['-']) ++ i.tag "AppName".toList

/-- An instance that is included is given a tag. -/
def include? (keys prefixes : List Text) (i : Instance) : Option Instance :=
  if missingTags keys i = [] then some (i.setTag "backend".toList (backendName prefixes i))
  else none

/-- A name is recorded once. -/
def addBackend (names : List Text) (name : Text) : List Text :=
  if names.contains name then names else names ++ [name]

/-- The loop of `get_acls`; `keys` has the prefixes already. -/
def collect (keys prefixes : List Text) (instances : List Instance) : Backends where
  allBackends := ((instances.filterMap (include? keys prefixes)).map
    fun i => i.tag "backend".toList).foldl addBackend []
  includedInstances := instances.filterMap (include? keys prefixes)
  excludedInstances := instances.filter fun i => missingTags keys i ≠ []

/-- The instances with the tags that they have after the loop. -/
def tagged (keys prefixes : List Text) (instances : List Instance) : List Instance :=
  instances.map fun i => (include? keys prefixes i).getD i

def indent (tabindent : Nat) : Text := List.replicate tabindent ' '

def aclLine (tabindent : Nat) (domain backend : Text) : Text :=
  indent tabindent ++ "acl ".toList ++ backend ++ " hdr(host) -i ".toList ++ backend ++
    '.' :: domain

def useLine (tabindent : Nat) (backend : Text) : Text :=
  indent tabindent ++ "use_backend ".toList ++ backend ++ " if ".toList ++ backend

/-- What `get_acls` returns. -/
def aclsText (b : Backends) (tabindent : Nat) (domain : Text) : Text :=
  '\n' :: indent tabindent ++ comment ++ b.allBackends.flatMap fun backend =>
    '\n' :: aclLine tabindent domain backend ++ '\n' :: useLine tabindent backend

def serverLine (tabindent : Nat) (cookie : Bool) (i : Instance) : Text :=
  indent tabindent ++ "server ".toList ++ i.id ++ ' ' :: i.privateDnsName ++
    ':' :: i.tag "AppPort".toList ++ if cookie then " cookie ".toList ++ i.id else []

def optionLine (tabindent : Nat) (option : Text × Text) : Text :=
  indent tabindent ++ option.1 ++ ' ' :: option.2

def cookieLine (tabindent : Nat) : Text :=
  indent tabindent ++ "cookie SERVERID insert indirect nocache".toList

def backendText (b : Backends) (options : Options) (tabindent : Nat) (cookie : Bool)
    (backend : Text) : Text :=
  "\n\n".toList ++ comment ++ "\nbackend ".toList ++ backend ++
    (options.flatMap fun option => '\n' :: optionLine tabindent option) ++
    (if cookie then '\n' :: cookieLine tabindent else []) ++ ['\n'] ++
    (b.includedInstances.filter fun i => i.tag "backend".toList = backend).flatMap fun i =>
      '\n' :: serverLine tabindent cookie i

/-- `generate`, which fails when it needs a template that there is not. -/
def generate (b : Backends) (templateName : Text) (tabindent : Nat) (cookie : Bool) :
    Option Text :=
  match backendTemplates templateName with
  | some options => some (b.allBackends.flatMap (backendText b options tabindent cookie))
  | none => if b.allBackends = [] then some [] else none

/-! ## `update-haproxy.py` -/

structure Template where
  above : Text
  aclsIndent : Nat
  domain : Text
  prefixes : Option (List Text)
  between : Text
  templateName : Text
  backendIndent : Nat
  cookie : Bool
  below : Text

/-- What a process keeps: the keys of the class, and the instances of the run. -/
structure Process where
  keys : List Text
  instances : List Instance

/-- `generate_haproxy_config` -/
def generateHaproxyConfig (t : Template) (p : Process) : Option (Text × Process) :=
  let prefixes := t.prefixes.getD []
  let keys := p.keys ++ prefixes
  let b := collect keys prefixes p.instances
  (generate b t.templateName t.backendIndent t.cookie).map fun backends =>
    (t.above ++ aclsText b t.aclsIndent t.domain ++ t.between ++ backends ++ t.below,
      ⟨keys, tagged keys prefixes p.instances⟩)

/-- The file that is written, and whether the service has been restarted. -/
structure Outcome where
  file : Option Text
  restarted : Bool
  deriving DecidableEq

/-- `file_contents` with some content: what is empty is not written. -/
def written (file : Option Text) (content : Text) : Option Text :=
  if content = [] then file else some content

/-- `main`, given the instances that are running: it generates the text once to compare it and a
second time to write it. -/
def main (t : Template) (keys : List Text) (file : Option Text) (instances : List Instance) :
    Option (Outcome × List Text) := do
  let (configuration, p) ← generateHaproxyConfig t ⟨keys, instances⟩
  if some configuration ≠ file then
    let (content, p) ← generateHaproxyConfig t p
    some (⟨written file content, true⟩, p.keys)
  else some (⟨file, false⟩, p.keys)

end Haproxy
end TdsAdmin
