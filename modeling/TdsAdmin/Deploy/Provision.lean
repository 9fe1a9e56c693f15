import TdsAdmin.Lib.Files
import TdsAdmin.Lib.Settings
import TdsAdmin.Lib.Shell

/-!
# `deployment.sh`: the settings of an application

With `APPPROVISION` set to `provision` the script writes the application parameters into
`param.env` on the server, sources that file, and edits the configuration of Tomcat with one
`sed -i` for each parameter. On its way a value stands between the single quotes of a remote `echo`,
behind `name=` in a line that the local shell reads, outside quotes in the middle of a word that the
remote shell reads, and in the replacement of a `sed` command. What comes out at the end is
`command`, or `none` where the text is no longer one word, where a shell puts something else in its
place, or where `sed` is not given a command without flags.
-/

set_option autoImplicit false

namespace TdsAdmin
namespace Deploy
namespace Provision

/-! ## The edits -/

/-- The parameters, under their names in `param.env`. -/
inductive Setting
  | dmnaservername | dspringprofileactive | KeyAlias | mongo_hostname | mongo_port | mongo_dbname
  | rest_context_root | mna_description | registration_url | mna_url | mna_delete_component_url
  | progman_metric_email | mysql_url | db_username | db_password | progman_baseuri
  | progman_locator | java_rmi_server_hostname
  deriving DecidableEq, Repr

def Setting.name : Setting → Text
  | .dmnaservername => "dmnaservername".toList
  | .dspringprofileactive => "dspringprofileactive".toList
  | .KeyAlias => "KeyAlias".toList
  | .mongo_hostname => "mongo_hostname".toList
  | .mongo_port => "mongo_port".toList
  | .mongo_dbname => "mongo_dbname".toList
  | .rest_context_root => "rest_context_root".toList
  | .mna_description => "mna_description".toList
  | .registration_url => "registration_url".toList
  | .mna_url => "mna_url".toList
  | .mna_delete_component_url => "mna_delete_component_url".toList
  | .progman_metric_email => "progman_metric_email".toList
  | .mysql_url => "mysql_url".toList
  | .db_username => "db_username".toList
  | .db_password => "db_password".toList
  | .progman_baseuri => "progman_baseuri".toList
  | .progman_locator => "progman_locator".toList
  | .java_rmi_server_hostname => "java_rmi_server_hostname".toList

/-- `sed -i 's|key[^ ]*|key opening'$value'closing|' path`, as the remote shell gets it: the local
one has taken the backslash off a double quote, and left the one in front of a slash. -/
structure Edit where
  key : Text
  opening : Text
  closing : Text
  path : Text

def setenv : Text := "/usr/local/tomcat/bin/setenv.sh".toList

section Edits

variable (CATALINA_HOME : Text)

def bare (key path : String) : Edit := ⟨key.toList, [], [], CATALINA_HOME ++ path.toList⟩

def quoted (key path : String) : Edit := ⟨key.toList, ['"'], ['"'], CATALINA_HOME ++ path.toList⟩

def edit : Setting → Edit
  | .dmnaservername => bare CATALINA_HOME "-DmnaServerName=" "/bin/setenv.sh"
  | .dspringprofileactive => ⟨"-Dspring.profiles.active=".toList, [], [], setenv⟩
  | .KeyAlias => quoted CATALINA_HOME "keyAlias=" "/conf/server.xml"
  | .mongo_hostname =>
      bare CATALINA_HOME "pm.mongo.hostname=" "/resources/progman/mongo.properties"
  | .mongo_port => bare CATALINA_HOME "pm.mongo.port=" "/resources/progman/mongo.properties"
  | .mongo_dbname => bare CATALINA_HOME "pm.mongo.dbname=" "/resources/progman/mongo.properties"
  | .rest_context_root => ⟨"pm.rest.context.root=".toList, "\\/".toList, "\\/".toList,
      CATALINA_HOME ++ "/resources/progman/rest-endpoints.properties".toList⟩
  | .mna_description =>
      bare CATALINA_HOME "progman.mna.description=" "/resources/progman/mna.properties"
  | .registration_url =>
      bare CATALINA_HOME "mna.registrationUrl=" "/resources/progman/mna.properties"
  | .mna_url => bare CATALINA_HOME "mna.mnaUrl=" "/resources/progman/mna.properties"
  | .mna_delete_component_url =>
      bare CATALINA_HOME "mna.mnaDeleteComponentUrl=" "/resources/progman/mna.properties"
  | .progman_metric_email =>
      bare CATALINA_HOME "progman.mna.availability.metric.email="
        "/resources/progman/mna.properties"
  | .mysql_url => quoted CATALINA_HOME "url=" "/conf/context.xml"
  | .db_username => quoted CATALINA_HOME "username=" "/conf/context.xml"
  | .db_password => quoted CATALINA_HOME "password=" "/conf/context.xml"
  | .progman_baseuri => ⟨"-Dprogman.baseUri=".toList, [], [], setenv⟩
  | .progman_locator => ⟨"-Dprogman.locator=".toList, [], [], setenv⟩
  | .java_rmi_server_hostname => ⟨"-Djava.rmi.server.hostname=".toList, [], [], setenv⟩

end Edits

/-- The order of the edits. -/
def block : List Setting :=
  [.dmnaservername, .dspringprofileactive, .KeyAlias, .mongo_hostname, .mongo_port, .mongo_dbname,
    .rest_context_root, .mna_description, .registration_url, .mna_url, .mna_delete_component_url,
    .progman_metric_email, .mysql_url, .db_username, .db_password, .progman_baseuri,
    .progman_locator, .java_rmi_server_hostname]

/-! ## The way of a value -/

/-- What the two shells may put in the place of a text that stands outside quotes. -/
structure Surroundings where
  /-- Tildes of a value that is assigned: the names of home directories. -/
  tilde : Text → Text
  /-- Braces and patterns of a word: the alternatives, and the names of files. -/
  expansions : Text → List Text

/-- The text is one word, less its quotes. -/
def oneWord (s : Text) : Option Text :=
  (Shell.readWord .plain s).bind fun r => if r.2 = [] then some r.1 else none

/-- The line that `echo 'name=$VALUE'` adds to `param.env`. -/
def echoed (s : Setting) (value : Text) : Option Text :=
  oneWord ('\'' :: (s.name ++ '=' :: value ++ ['\'']))

section Shells

variable (around : Surroundings)

/-- What the variable is after the line has been sourced. -/
def sourced (s : Setting) (line : Text) : Option Text :=
  if s.name ++ ['='] <+: line then
    let value := line.drop (s.name.length + 1)
    if around.tilde value = value then
      (Shell.readWord .plain (value ++ ['\n'])).bind fun r =>
        if r.2 = ['\n'] then some r.1 else none
    else none
  else none

/-- The word that `sed` gets. A `$` in front of the quote behind the value would be part of it. -/
def script (e : Edit) (value : Text) : Option Text :=
  if around.expansions value = [value] ∧ value.getLast? ≠ some '$' then
    oneWord ('\'' :: ("s|".toList ++ e.key ++ "[^ ]*|".toList ++ e.key ++ e.opening ++
      '\'' :: (value ++ '\'' :: (e.closing ++ "|'".toList))))
  else none

variable (CATALINA_HOME : Text)

def command (s : Setting) (value : Text) : Option Sed.Command :=
  (((echoed s value).bind (sourced around s)).bind
    (script around (edit CATALINA_HOME s))).bind Sed.readCommand

/-! ## The run -/

variable (values : Setting → Text)

/-- One edit; `sed` leaves a file that is not there alone. -/
def runEdit (files : Files Text) (s : Setting) : Option (Files Text) :=
  (command around CATALINA_HOME s (values s)).map fun command =>
    match files (edit CATALINA_HOME s).path with
    | none => files
    | some text => Function.update files (edit CATALINA_HOME s).path (some (command.onFile text))

def appProvision (files : Files Text) : Option (Files Text) :=
  block.foldlM (runEdit around CATALINA_HOME values) files

end Shells

/-! ## What is meant -/

open Settings (Span IsLayout fileText setLine)

/-- What a setting is found by. -/
def key (s : Setting) : Text := (edit [] s).key

/-- How a value is written. -/
def written (s : Setting) (value : Text) : Text :=
  match s with
  | .KeyAlias | .mysql_url | .db_username | .db_password => '"' :: (value ++ ['"'])
  | .rest_context_root => '/' :: (value ++ ['/'])
  | _ => value

/-- The lines of a file, and where the settings stand in them. -/
abbrev Lines := List (List (Span Setting))

/-- The files of a server, with what is known of them. -/
structure Configuration where
  files : Files Lines
  isLayout : ∀ path lines, files path = some lines → IsLayout key lines

/-- The files as they are stored. -/
def texts (files : Files Lines) : Files Text := fun path => (files path).map (fileText key)

section Meant

variable (CATALINA_HOME : Text) (values : Setting → Text)

/-- A setting gets its value, in the file that is edited for it. -/
def setFile (files : Files Lines) (s : Setting) : Files Lines :=
  match files (edit CATALINA_HOME s).path with
  | none => files
  | some lines => Function.update files (edit CATALINA_HOME s).path
      (some (lines.map (setLine s (written s (values s)))))

def setAll (ss : List Setting) (files : Files Lines) : Files Lines :=
  ss.foldl (setFile CATALINA_HOME values) files

/-- **The block sets the settings and changes nothing else**, and when it is run once more it
changes nothing at all. -/
structure Provisions (around : Surroundings) (files : Files Lines) : Prop where
  exact : appProvision around CATALINA_HOME values (texts files)
    = some (texts (setAll CATALINA_HOME values block files))
  again : appProvision around CATALINA_HOME values
      (texts (setAll CATALINA_HOME values block files))
    = some (texts (setAll CATALINA_HOME values block files))

/-- The lines of the file that is edited for a setting are safe. -/
def ClearFor (files : Files Lines) (s : Setting) : Prop :=
  ∀ lines, files (edit CATALINA_HOME s).path = some lines →
    ∀ line ∈ lines, Settings.Clear key s (written s (values s)) line

/-- Every edit of the two runs finds the files safe for it. -/
def EveryStepClear (files : Files Lines) : Prop :=
  ∀ done s, done ++ [s] <+: block ++ block →
    ClearFor CATALINA_HOME values (setAll CATALINA_HOME values done files) s

end Meant

/-- The value means itself on the whole way: outside quotes it is one word, and no shell puts
anything in its place. -/
structure ComesThrough (around : Surroundings) (value : Text) : Prop where
  bare : Shell.bare value = true
  tilde : around.tilde value = value
  expansions : around.expansions value = [value]

end Provision
end Deploy
end TdsAdmin
