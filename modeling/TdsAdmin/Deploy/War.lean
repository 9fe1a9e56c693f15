import TdsAdmin.Lib.Files

/-!
# The war deployment scripts

`tds-wardeploy.sh`, `tr-wardeploy.sh`, `pm-wardeploy.sh` and `tsb-wardeploy.sh` from where tomcat
has been stopped: a chain of tests on the name of the artifact, and behind each the same seven
commands for one application. No command's exit status is looked at.

A war is known by its name without `.war`.
-/

set_option autoImplicit false

namespace TdsAdmin
namespace Deploy

/-- An argument that stays one word where it is not quoted, and one component of a path. -/
def isNameChar (c : Char) : Bool :=
  !(c == ' ' || c == '\t' || c == '\n' || c == '/' || c == '*' || c == '?' || c == '[' || c == '\\')

structure Name where
  text : Text
  isName : text.all isNameChar = true

/-- What the commands work on: the wars in `webapps`, what tomcat has unpacked next to them, and
the wars in `latestversion` and `oldversion`. -/
structure Server (γ : Type) where
  webapps : Files γ
  unpacked : Files γ
  latestversion : Files γ
  oldversion : Files γ

variable {γ : Type}

/-- `$ARTIFACT-$Version` -/
def fileName (artifact version : Name) : Text := artifact.text ++ '-' :: version.text

/-- The commands behind a test. -/
def replaceWar (file app : Text) (s : Server γ) : Server γ :=
  let oldversion := s.webapps.cp s.oldversion app
  let webapps := s.webapps.rm app
  let unpacked := s.unpacked.rm app
  let latestversion := s.latestversion.mv file app
  { webapps := latestversion.cp webapps app
    unpacked := unpacked
    latestversion := latestversion
    oldversion := oldversion }

/-- A test: what is looked for in the name of the artifact, and the application. -/
structure Branch where
  pattern : Text
  app : Text
  deriving DecidableEq

inductive Script
  | tds
  | tr
  | pm
  | tsb

/-- The two tests that three of the scripts share. -/
def restAndWebapp : List Branch :=
  [⟨"rest".toList, "rest".toList⟩, ⟨"webapp".toList, "ROOT".toList⟩]

def Script.branches : Script → List Branch
  | .tds =>
      [⟨"item-scoring-service".toList, "itemscoring".toList⟩,
        ⟨"student".toList, "student".toList⟩,
        ⟨"testadmin".toList, "proctor".toList⟩,
        ⟨"tds-load-test-node".toList, "tds-load-test-node".toList⟩,
        ⟨"ContentUploader".toList, "ContentUploader".toList⟩]
  | .tr => restAndWebapp
  | .pm => restAndWebapp
  | .tsb => restAndWebapp

/-- `echo $ARTIFACT | grep pattern`, and the commands if it finds something -/
def Branch.run (artifact version : Name) (s : Server γ) (b : Branch) : Server γ :=
  if Text.has b.pattern artifact.text then replaceWar (fileName artifact version) b.app s else s

def Script.deploy (script : Script) (artifact version : Name) (s : Server γ) : Server γ :=
  script.branches.foldl (Branch.run artifact version) s

end Deploy
end TdsAdmin
