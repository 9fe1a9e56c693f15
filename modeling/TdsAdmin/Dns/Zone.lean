import TdsAdmin.Lib.Xml

/-!
# A zone of Route 53

What the scripts ask Route 53 for is a batch of changes: records to delete and records to create.
A record is deleted only as it stands, with its lifetime and its value, and one is created only
where none is. A batch is carried out as a whole or not at all, which is what Route 53 documents
and all that is assumed of it (`Route53`).

A request is an XML document, and `readRequest` is what it says.
-/

set_option autoImplicit false

namespace TdsAdmin
namespace Dns

open Xml (Chunk enter leaf)

/-- The characters of a name that Route 53 prints as they are. -/
def isNameChar (c : Char) : Bool := c.isAlphanum || c == '-' || c == '_' || c == '.'

/-- A `CNAME` record to delete or to create. -/
inductive Change where
  | delete (name ttl value : Text)
  | create (name ttl value : Text)
  deriving DecidableEq

structure Zone where
  /-- The lifetime and the value of the `CNAME` record of a name. -/
  cname : Text → Option (Text × Text)
  /-- The names that have records of another kind. -/
  taken : Text → Bool

namespace Zone

def set (z : Zone) (name : Text) (held : Option (Text × Text)) : Zone :=
  { z with cname := fun other => if other = name then held else z.cname other }

def change (z : Zone) : Change → Option Zone
  | .delete name ttl value =>
      if z.cname name = some (ttl, value) then some (z.set name none) else none
  | .create name ttl value =>
      if z.cname name = none ∧ z.taken name = false then some (z.set name (some (ttl, value)))
      else none

def changeAll (z : Zone) (batch : List Change) : Option Zone := batch.foldlM change z

@[simp] theorem set_same (z : Zone) (name : Text) (held : Option (Text × Text)) :
    (z.set name held).cname name = held := if_pos rfl

@[simp] theorem set_taken (z : Zone) (name : Text) (held : Option (Text × Text)) :
    (z.set name held).taken = z.taken := rfl

theorem set_other (z : Zone) {name other : Text} (held : Option (Text × Text))
    (h : other ≠ name) : (z.set name held).cname other = z.cname other := if_neg h

theorem set_set (z : Zone) (name : Text) (first second : Option (Text × Text)) :
    (z.set name first).set name second = z.set name second := by
  unfold set
  congr 1
  funext other
  dsimp only
  split <;> rfl

/-- **A record stays as long as nobody asks for it to be deleted as it stands.** -/
theorem changeAll_keeps {name ttl value : Text} : ∀ {batch : List Change} {z z' : Zone},
    z.changeAll batch = some z' → z.cname name = some (ttl, value) →
    .delete name ttl value ∉ batch → z'.cname name = some (ttl, value)
  | [], z, z', h, hheld, _ => by
    rw [← Option.some.inj h]
    exact hheld
  | c :: batch, z, z', h, hheld, hnot => by
    rw [List.mem_cons, not_or] at hnot
    rw [changeAll, List.foldlM_cons] at h
    obtain ⟨y, hy, hrest⟩ := Option.bind_eq_some_iff.mp h
    apply changeAll_keeps hrest _ hnot.2
    cases c with
    | delete other t v =>
      rw [change] at hy
      split at hy
      · rename_i hother
        cases hy
        by_cases hname : name = other
        · subst hname
          rw [hheld] at hother
          injection hother with heq
          injection heq with ht hv
          exact absurd (by rw [ht, hv]) hnot.1
        · rw [z.set_other _ hname]
          exact hheld
      · cases hy
    | create other t v =>
      rw [change] at hy
      split at hy
      · rename_i hother
        cases hy
        have hname : name ≠ other := by
          intro heq
          rw [← heq, hheld] at hother
          cases hother.1
        rw [z.set_other _ hname]
        exact hheld
      · cases hy

end Zone

/-- Route 53 as it is documented. -/
structure Route53 where
  submit : Zone → List Change → Zone
  accepts : ∀ z batch z', z.changeAll batch = some z' → submit z batch = z'
  refuses : ∀ z batch, z.changeAll batch = none → submit z batch = z

/-! ## Requests -/

/-- A name is the same with a dot at its end. -/
def unrooted (name : Text) : Text := if name.getLast? = some '.' then name.dropLast else name

def changeOf (action name ttl value : Text) : Option Change :=
  if action = "DELETE".toList then some (.delete (unrooted name) ttl value)
  else if action = "CREATE".toList then some (.create (unrooted name) ttl value)
  else none

/-- One `Change` element with one value. -/
def readChange (ps : List Chunk) : Option (Change × List Chunk) := do
  let ps ← enter "Change".toList ps
  let (action, ps) ← leaf "Action".toList ps
  let ps ← enter "ResourceRecordSet".toList ps
  let (name, ps) ← leaf "Name".toList ps
  let (type, ps) ← leaf "Type".toList ps
  let (ttl, ps) ← leaf "TTL".toList ps
  let ps ← enter "ResourceRecords".toList ps
  let ps ← enter "ResourceRecord".toList ps
  let (value, ps) ← leaf "Value".toList ps
  let ps ← enter "/ResourceRecord".toList ps
  let ps ← enter "/ResourceRecords".toList ps
  let ps ← enter "/ResourceRecordSet".toList ps
  let ps ← enter "/Change".toList ps
  let change ← changeOf action name ttl value
  if type = "CNAME".toList then some (change, ps) else none

/-- `Change` elements as far as the end tag of `Changes`. -/
def readChanges : Nat → List Chunk → Option (List Change × List Chunk)
  | 0, _ => none
  | fuel + 1, ps =>
      match enter "/Changes".toList ps with
      | some rest => some ([], rest)
      | none => do
          let (change, ps) ← readChange ps
          let (changes, ps) ← readChanges fuel ps
          some (change :: changes, ps)

def declaration : Text := "?xml version=\"1.0\" encoding=\"UTF-8\"?".toList

def requestTag : Text :=
  "ChangeResourceRecordSetsRequest xmlns=\"https://route53.amazonaws.com/doc/2010-10-01/\"".toList

/-- The changes that a request asks for. -/
def readRequest (request : Text) : Option (List Change) := do
  let ps ← Xml.chunks request
  let ps ← enter declaration ps
  let ps ← enter requestTag ps
  let ps ← enter "ChangeBatch".toList ps
  let (_, ps) ← leaf "Comment".toList ps
  let ps ← enter "Changes".toList ps
  let (changes, ps) ← readChanges ps.length ps
  let ps ← enter "/ChangeBatch".toList ps
  let ps ← enter "/ChangeResourceRecordSetsRequest".toList ps
  if ps = [] then some changes else none

end Dns
end TdsAdmin
