import Mathlib.Logic.Function.Basic
import TdsAdmin.Lib.Text

/-!
# The files of a directory

A directory by what its files hold, and the three commands that scripts use on them. A command that
finds no file to work on fails and changes nothing; scripts that do not look at exit statuses go on
with that.
-/

set_option autoImplicit false

namespace TdsAdmin

/-- What each file of a directory holds. -/
abbrev Files (γ : Type) := Text → Option γ

namespace Files

variable {γ : Type}

/-- `rm` -/
def rm (files : Files γ) (name : Text) : Files γ := Function.update files name none

/-- `cp` of a file into another directory -/
def cp (source target : Files γ) (name : Text) : Files γ :=
  match source name with
  | none => target
  | some content => Function.update target name (some content)

/-- `mv` within a directory; a file cannot be moved to itself -/
def mv (files : Files γ) (source target : Text) : Files γ :=
  match files source with
  | none => files
  | some content =>
      if source = target then files
      else Function.update (Function.update files source none) target (some content)

@[simp] theorem rm_self (files : Files γ) (name : Text) : files.rm name name = none := by
  rw [rm, Function.update_self]

theorem rm_other {files : Files γ} {name x : Text} (h : x ≠ name) :
    files.rm name x = files x := by
  rw [rm, Function.update_of_ne h]

theorem cp_self (source target : Files γ) (name : Text) :
    cp source target name name = (source name).or (target name) := by
  rw [cp]
  cases source name with
  | none => rfl
  | some content => exact Function.update_self name (some content) target

theorem cp_other {source target : Files γ} {name x : Text} (h : x ≠ name) :
    cp source target name x = target x := by
  rw [cp]
  cases source name with
  | none => rfl
  | some content => exact Function.update_of_ne h (some content) target

variable {files : Files γ} {source target : Text}

theorem mv_source (h : source ≠ target) : files.mv source target source = none := by
  rw [mv]
  cases hfile : files source with
  | none => exact hfile
  | some content =>
    dsimp only
    rw [if_neg h, Function.update_of_ne h, Function.update_self]

theorem mv_target (h : source ≠ target) :
    files.mv source target target = (files source).or (files target) := by
  rw [mv]
  cases files source with
  | none => rfl
  | some content =>
    dsimp only
    rw [if_neg h, Function.update_self]
    rfl

theorem mv_other {x : Text} (hs : x ≠ source) (ht : x ≠ target) :
    files.mv source target x = files x := by
  rw [mv]
  cases files source with
  | none => rfl
  | some content =>
    dsimp only
    split
    · rfl
    · rw [Function.update_of_ne ht, Function.update_of_ne hs]

end Files
end TdsAdmin
