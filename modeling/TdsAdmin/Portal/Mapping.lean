import TdsAdmin.Lib.Datum

/-!
# `dump_component_mapping.pl` and the script that runs it

The Perl script asks two services for the components of every role and for the properties of the
portal, and writes a row for each component of each role. It looks into the answers as it goes, and
dies where they are not built as it expects; what it has written by then is in the file, since Perl
flushes its output when it exits.

`dump_component_mapping.sh` publishes the file if there is anything in it, and sends a mail
otherwise.
-/

set_option autoImplicit false

namespace TdsAdmin
namespace Portal

/-! ## `dump_component_mapping.pl` -/

/-- What the services answer; `none` is a text that `from_json` dies on. -/
structure Responses where
  token : Option Datum
  component : Option Datum
  mapping : Option Datum

def icon_relative_path : Text := "iconRelativePath".toList

/-- `index($key, $needle) != -1` for the key of a property -/
def keyHas (needle : Text) (property : Datum) : Option Bool :=
  (property.get "propertyKey".toList).map fun key => Text.has needle key.text

/-- The last property whose key holds `iconRelativePath`; `none` when a property is no record. -/
def iconPath (properties : List Datum) : Option Text :=
  properties.foldlM (fun path property => do
    let found ← keyHas icon_relative_path property
    let value ← property.get "propertyValue".toList
    pure (if found then value.text else path)) "not_found".toList

/-- `/needle$/`: at the end, or in front of a newline at the end. -/
def endsWith (needle key : Text) : Bool :=
  needle.isSuffixOf key || (needle ++ ['\n']).isSuffixOf key

/-- The value of the last property whose key holds the name of the component and has the ending. -/
def propertyFor (properties : List Datum) (component ending : Text) : Text :=
  properties.foldl (fun found property =>
    let key := ((property.get "propertyKey".toList).getD .undef).text
    if Text.has component key && endsWith ending key then
      ((property.get "propertyValue".toList).getD .undef).text
    else found) []

/-- `s/ //gr` -/
def noSpaces (s : Text) : Text := s.filter (· ≠ ' ')

/-- A row of the output. -/
def row (properties : List Datum) (icon_path role component : Text) : Text :=
  let property := propertyFor properties (noSpaces component)
  role ++ '|' :: (component ++ '|' :: (property ".displayname".toList ++ '|' ::
    (property ".url".toList ++ '|' :: (icon_path ++ (property ".icon".toList ++ ['\n'])))))

/-- The rows that a loop writes, and whether it dies. -/
structure Output where
  rows : List Text
  died : Bool

def Output.andThen (first : Output) (next : Output) : Output :=
  if first.died then first else ⟨first.rows ++ next.rows, next.died⟩

def componentsLoop (properties : List Datum) (icon_path role : Text) : List Datum → Output
  | [] => ⟨[], false⟩
  | c :: rest =>
      match c.get "component".toList with
      | none => ⟨[], true⟩
      | some component =>
          Output.andThen ⟨[row properties icon_path role component.text], false⟩
            (componentsLoop properties icon_path role rest)

def rolesLoop (properties : List Datum) (icon_path : Text) : List Datum → Output
  | [] => ⟨[], false⟩
  | r :: rest =>
      match r.get "role".toList, (r.get "mappings".toList).bind Datum.asArray with
      | some role, some components =>
          (componentsLoop properties icon_path role.text components).andThen
            (rolesLoop properties icon_path rest)
      | _, _ => ⟨[], true⟩

/-- What the script has got together when it opens its output file. -/
structure Prepared where
  properties : List Datum
  icon_path : Text
  roles : List Datum

/-- The script as far as `open`; `none` when it dies before. -/
def prepare (r : Responses) : Option Prepared := do
  let token ← r.token
  let _ ← token.get "access_token".toList
  let component ← r.component
  let mapping ← r.mapping
  let properties ← (← component.get "properties".toList).asArray
  let icon_path ← iconPath properties
  let roles ← (← (← mapping.get "value".toList).get "roles".toList).asArray
  pure ⟨properties, icon_path, roles⟩

/-- The output file after a run, `none` if it has not been opened, and whether the run has died.
`writable` says whether the file can be opened. -/
def dumpComponentMapping (r : Responses) (writable : Bool) : Option Text × Bool :=
  match prepare r with
  | none => (none, true)
  | some p =>
      if writable then
        let output := rolesLoop p.properties p.icon_path p.roles
        (some output.rows.flatten, output.died)
      else (none, true)

/-! ## `dump_component_mapping.sh` -/

/-- The files of the driver: the published one, its copy, and the one the Perl script writes, each
`none` if it does not exist. -/
structure Site where
  component_output : Option Text
  backup : Option Text
  output_temp : Option Text
  mails : Nat

/-- `-s`: the file exists and is not empty. -/
def hasSize (file : Option Text) : Bool := !(file.getD []).isEmpty

def publish (r : Responses) (writable : Bool) (s : Site) : Site :=
  let output := ((dumpComponentMapping r writable).1).or s.output_temp
  if hasSize output then
    { s with
      component_output := output
      backup := s.component_output.or s.backup
      output_temp := none }
  else { s with output_temp := none, mails := s.mails + 1 }

end Portal
end TdsAdmin
