import TdsAdmin.Lib.Text

/-!
# Perl data

What `from_json` makes of a JSON text: scalars, references to arrays and hashes, and `undef` for
`null`. Under `use strict` only an array can be used as an array, and only a hash as a hash, but an
undefined value that is looked into becomes an empty hash; anything else dies.
-/

set_option autoImplicit false

namespace TdsAdmin

inductive Datum
  | undef
  | scalar (text : Text)
  | array (elements : List Datum)
  | hash (members : List (Text × Datum))

namespace Datum

/-- `@{ $d }` -/
def asArray : Datum → Option (List Datum)
  | .array elements => some elements
  | _ => none

/-- `$d->{...}` does not die. -/
def isRecord : Datum → Bool
  | .undef => true
  | .hash _ => true
  | _ => false

/-- `$d->{key}`. Of two members with one name the later one counts. -/
def get (d : Datum) (key : Text) : Option Datum :=
  match d with
  | .undef => some .undef
  | .hash members => some ((members.reverse.lookup key).getD .undef)
  | _ => none

/-- A value in a string. What a reference looks like there depends on where it is in memory. -/
def text : Datum → Text
  | .undef => []
  | .scalar text => text
  | .array _ => "ARRAY".toList
  | .hash _ => "HASH".toList

theorem get_isSome (d : Datum) (key : Text) : (d.get key).isSome = d.isRecord := by
  cases d <;> rfl

/-! ## What a hash says of a key -/

/-- A hash into which pairs were put says all of them if no key was put in with two values. -/
theorem lookup_eq_some_iff_mem {α β : Type} [BEq α] [LawfulBEq α] {members : List (α × β)} :
    (∀ key value, members.lookup key = some value ↔ (key, value) ∈ members) ↔
      members.Pairwise fun a b => a.1 = b.1 → a.2 = b.2 := by
  constructor
  · intro h
    refine List.pairwise_of_forall_mem_list fun a ha b hb hkey => ?_
    have hb' : members.lookup a.1 = some b.2 := (h a.1 b.2).mpr (by rw [hkey]; exact hb)
    exact Option.some.inj (((h a.1 a.2).mpr ha).symm.trans hb')
  · intro h
    induction members with
    | nil => exact fun _ _ => iff_of_false (fun h => by cases h) List.not_mem_nil
    | cons m members ih =>
      obtain ⟨hm, hmembers⟩ := List.pairwise_cons.mp h
      intro key value
      rw [List.lookup_cons, List.mem_cons, ← ih hmembers]
      split
      · rename_i hkey
        obtain rfl : key = m.1 := eq_of_beq hkey
        refine ⟨fun hv => Or.inl (by rw [← Option.some.inj hv]), fun hv => ?_⟩
        rcases hv with hv | hv
        · rw [← hv]
        · rw [hm _ ((ih hmembers m.1 value).mp hv) rfl]
      · rename_i hkey
        refine ⟨Or.inr, fun hv => hv.elim (fun hv => ?_) id⟩
        rw [← hv, beq_self_eq_true] at hkey
        cases hkey

end Datum
end TdsAdmin
