import TdsAdmin.Lib.Sed
import TdsAdmin.Deploy.War

/-!
# The deployment job

What `deployment.sh` does for `APPDEPLOY`: tomcat is stopped, each artifact of the list is looked
up, downloaded, packed, copied to the server and handed to the `wardeploy.sh` that has been
installed there, and tomcat is started. The job gives up at the first artifact that it cannot
download, and looks at nothing that the server reports.

The archive of an artifact stays in the workspace from one job to the next, and `zip` adds to it.
The name of the project is one word, and so is each component of the path of an artifact.
-/

set_option autoImplicit false

namespace TdsAdmin
namespace Deploy

variable {γ : Type}

/-! ## Downloading an artifact -/

/-- What is answered while the job is at one artifact. -/
structure Answer (γ : Type) where
  /-- `$RESP` -/
  login : Text
  /-- `$SEARCHPATH`, cut at the slashes -/
  searchPath : List Name
  /-- `$CheckArtifact` -/
  check : Text
  /-- What `wget` has stored in `artifacts`. -/
  stored : Option γ
  /-- What tomcat answers when `wardeploy.sh` looks whether it is stopped. -/
  response : Text

def Name.empty : Name := ⟨[], rfl⟩

/-- `rev | cut -d/ -f3 | rev` -/
def artifactId (searchPath : List Name) : Name :=
  match searchPath.reverse with
  | [whole] => whole
  | _ :: _ :: id :: _ => id
  | _ => Name.empty

/-- The file in `artifacts`, with the `$ARTIFACTID` it is looked for by. -/
structure Download (γ : Type) where
  id : Name
  file : Name
  war : γ

/-- Nothing stands for the three places where the job exits. -/
def Answer.download (a : Answer γ) : Option (Download γ) :=
  if a.login != "200".toList then none
  else if a.check != "200".toList then none
  else match a.stored with
    | none => none
    | some war =>
        let id := artifactId a.searchPath
        let file := a.searchPath.getLastD Name.empty
        -- `[ -f artifacts/$ARTIFACTID** ]`, where nothing else is in the directory
        if id.text.isPrefixOf file.text then some ⟨id, file, war⟩ else none

def Name.erase (regexp : Text) (name : Name) : Name where
  text := Sed.erase regexp name.text
  isName := List.all_eq_true.mpr fun c hc =>
    List.all_eq_true.mp name.isName c ((Sed.eraseFrom_sublist regexp 0 name.text).subset hc)

/-- `$Version`: what `sed` leaves of the name of the file. -/
def readVersion (id file : Name) : Name :=
  (file.erase (id.text ++ ['-'])).erase ".war".toList

def Download.version (d : Download γ) : Name := readVersion d.id d.file

/-- `zip -j`: where there is no file of that name the archive stays as it is. -/
def zip (archive : Files γ) (d : Download γ) : Files γ :=
  if d.file.text = fileName d.id d.version ++ ".war".toList then
    Function.update archive (fileName d.id d.version) (some d.war)
  else archive

/-! ## `wardeploy.sh` and its arguments -/

def isOption (c : Char) : Bool := c == 'p' || c == 'a' || c == 'v' || c == 'd'

/-- The options of one argument behind its dash, and whether the last of them takes the next
argument for its value. -/
def options : Text → List Char × Bool
  | [] => ([], false)
  | c :: rest =>
      if isOption c then
        if rest.isEmpty then ([c], true) else ([c], false)
      else options rest

/-- The options that `getopts ":p:a:v:d:"` reports; `skip` says that the argument is a value. -/
def getopts : Bool → List Text → List Char
  | _, [] => []
  | true, _ :: args => getopts false args
  | false, arg :: args =>
      match arg with
      | '-' :: c :: rest =>
          -- `--` ends the options
          if c == '-' && rest.isEmpty then []
          else match options (c :: rest) with
            | (found, true) => if args.isEmpty then [] else found ++ getopts true args
            | (found, false) => found ++ getopts false args
      | _ => []

/-- `"${i}"` for an option that has been found; a variable that is not set is empty. -/
def argument (args : List Name) (option : Char) (i : Nat) : Name :=
  if (getopts false (args.map Name.text)).contains option then args.getD (i - 1) Name.empty
  else Name.empty

/-- All scripts but the first drop the database when they are told to, set `ROOT` aside and look
whether tomcat is stopped. -/
def Script.guarded : Script → Bool
  | .tds => false
  | .tr => true
  | .pm => true
  | .tsb => true

/-- Without a `ROOT.war` what is unpacked as `ROOT` is moved to `ROOT-copy`, or into it if that is
there already. A directory that is in the way is not replaced. -/
def setRootAside (s : Server γ) : Server γ :=
  if (s.webapps "ROOT".toList).isSome then s
  else if (s.unpacked "ROOT-copy".toList).isNone then
    { s with unpacked := s.unpacked.mv "ROOT".toList "ROOT-copy".toList }
  else if (s.unpacked "ROOT-copy/ROOT".toList).isNone then
    { s with unpacked := s.unpacked.mv "ROOT".toList "ROOT-copy/ROOT".toList }
  else s

def Script.setAside (script : Script) (s : Server γ) : Server γ :=
  if script.guarded then setRootAside s else s

structure State (γ : Type) where
  /-- The archives `$ARTIFACTID.appfiles.zip` in the workspace. -/
  archives : Text → Files γ
  server : Server γ
  /-- The last thing tomcat has been told is to start. -/
  started : Bool
  /-- How often the database has been dropped. -/
  drops : Nat

/-- `wardeploy.sh`, as far as the applications and the database go. -/
def wardeploy (script : Script) (args : List Name) (response : Text) (s : State γ) : State γ :=
  if args.length ≠ 8 then s
  else
    let artifact := argument args 'a' 4
    let version := argument args 'v' 6
    let dropdb := argument args 'd' 8
    -- the database goes before tomcat is asked whether it is stopped
    let s := if script.guarded && dropdb.text == "yes".toList then { s with drops := s.drops + 1 }
      else s
    let s := { s with server := script.setAside s.server }
    -- tomcat still answers, and the script exits
    if script.guarded && response == "200".toList then s
    else { s with server := script.deploy artifact version s.server }

/-! ## The job -/

structure Job (γ : Type) where
  project : Name
  isProject : project.text ≠ []
  /-- The words of `$DROPDB`. -/
  dropdb : List Name
  answers : List (Answer γ)

/-- What the shell makes of an expansion without quotes. -/
def Name.words (name : Name) : List Name := if name.text.isEmpty then [] else [name]

/-- `-p $PROJECTNAME -a $ARTIFACTID -v $Version -d $DROPDB` -/
def Job.arguments (job : Job γ) (d : Download γ) : List Name :=
  ⟨"-p".toList, rfl⟩ :: job.project.words ++ ⟨"-a".toList, rfl⟩ :: d.id.words ++
    ⟨"-v".toList, rfl⟩ :: d.version.words ++ ⟨"-d".toList, rfl⟩ :: job.dropdb

/-- One artifact that has been downloaded: packed, copied into an empty `latestversion`, unpacked
there and deployed. -/
def Job.deploy (script : Script) (job : Job γ) (d : Download γ) (response : Text) (s : State γ) :
    State γ :=
  let archive := zip (s.archives d.id.text) d
  wardeploy script (job.arguments d) response
    { s with
      archives := Function.update s.archives d.id.text archive
      server := { s.server with latestversion := archive } }

/-- The loop over the artifacts, and whether it has come to its end. -/
def Job.each (script : Script) (job : Job γ) : List (Answer γ) → State γ → State γ × Bool
  | [], s => (s, true)
  | a :: rest, s =>
      match a.download with
      | none => (s, false)
      | some d => job.each script rest (job.deploy script d a.response s)

def Job.run (script : Script) (job : Job γ) (s : State γ) : State γ :=
  match job.each script job.answers { s with started := false } with
  | (s, true) => { s with started := true }
  | (s, false) => s

end Deploy
end TdsAdmin
