import Mathlib.Data.List.Sort
import TdsAdmin.Lib.Fields
import TdsAdmin.Lib.Odometer
import TdsAdmin.Lib.System

/-!
# `autoscaling_haproxy_update.pl`

The script waits for notifications of an auto-scaling group and keeps the servers of `haproxy.cfg`
in step with them: a line is added for an instance that is launched and the lines of an instance
that is terminated are taken out. A message is deleted from the queue when it has been dealt with,
and one that is not comes back.

What the message says is read off its text; what EC2 says of the instance is up to EC2 and may
differ from call to call (`Ec2`). The script is one party: the group publishes messages, the queue
hands out any message that was ever published, in any order and as often as it likes, and the
script may end at any moment and be started again. Of the queue nothing else is used than that a
message stays in it until it is deleted. The reload of haproxy, which runs next to the edit, and the
lines the script prints are left out.
-/

set_option autoImplicit false

namespace TdsAdmin
namespace Autoscale

open Fields (cutField)

/-! ## Messages -/

inductive Action where
  | terminating
  | launching
  deriving DecidableEq, Repr

def Action.keyword : Action → Text
  | .terminating => "Terminating".toList
  | .launching => "Launching".toList

/-- `EC2InstanceId\\\"\:\\\"` -/
def idLead : Text := "EC2InstanceId\\\":\\\"".toList

/-- `(i-.{8})` -/
def takeId : Text → Option Text
  | 'i' :: '-' :: s =>
      if (s.take 8).length = 8 ∧ '\n' ∉ s.take 8 then some ('i' :: '-' :: s.take 8) else none
  | _ => none

def idHere (s : Text) : Option Text :=
  if idLead.isPrefixOf s then takeId (s.drop idLead.length) else none

/-- `.*` in front of it takes all it can, so that the last place on the line counts. -/
def idBehind : Text → Option Text
  | [] => none
  | c :: s => if c = '\n' then idHere (c :: s) else (idBehind s).or (idHere (c :: s))

/-- `.+` wants one character. -/
def idAfter : Text → Option Text
  | [] => none
  | c :: s => if c = '\n' then none else idBehind s

def actionHere (action : Action) (s : Text) : Option (Action × Text) :=
  if action.keyword.isPrefixOf s then
    (idAfter (s.drop action.keyword.length)).map (Prod.mk action)
  else none

/-- `/(Terminating|Launching).+EC2InstanceId\\\"\:\\\"(i-.{8})/` -/
def actionOf : Text → Option (Action × Text)
  | [] => none
  | c :: s =>
      -- at each place of the text the two words are tried in the order of the pattern
      ((actionHere .terminating (c :: s)).or (actionHere .launching (c :: s))).or (actionOf s)

/-! ## What EC2 says -/

def isHex (c : Char) : Bool := c.isDigit || ('a' ≤ c && c ≤ 'f')

/-- `i-` and eight hexadecimal digits -/
def isId : Text → Bool
  | 'i' :: '-' :: digits => digits.length == 8 && digits.all isHex
  | _ => false

/-- The identifier of an instance somewhere in a text. -/
def holdsId (s : Text) : Bool := s.tails.any fun t => isId (t.take 10)

def isHostChar (c : Char) : Bool := c.isAlphanum || c == '-' || c == '.'

/-- A private DNS name, which EC2 makes out of the address of the instance. -/
structure Host where
  text : Text
  plain : text.all isHostChar = true
  noId : holdsId text = false

/-- `describe_instances`: the private DNS names by reservation. It dies on an instance that EC2
does not know, and EC2 knows no instance by another name than its identifier. -/
structure Ec2 where
  describe : Text → Option (List (List Host))
  known : ∀ id, (describe id).isSome = true → isId id = true

/-! ## The configuration file -/

def marker : Text := "# Begin".toList

/-- `grep needle -An`, with the number of lines that are still to be shown. The lines that `grep`
puts between two groups hold none of what is looked for afterwards, and are left out. -/
def grepAfter (needle : Text) (n : Nat) : Nat → List Text → List Text
  | _, [] => []
  | r, l :: ls =>
      if Text.has needle l then l :: grepAfter needle n n ls
      else match r with
        | 0 => grepAfter needle n 0 ls
        | r + 1 => l :: grepAfter needle n r ls

/-- `grep '# Begin' -A1000 | grep server | sort -k1 | cut -f6 -d' ' | tail -1` -/
def lastApp (file : Text) : Text :=
  let shown := (grepAfter marker 1000 0 ((Text.lines file).map Text.chomp)).filter
    (Text.has "server".toList)
  (((shown.insertionSort (· ≤ ·)).map (cutField 6)).getLast?).getD []

section Edits

variable (numeric : Odometer.Numeric)

/-- The name of the next server. -/
def nextApp (file : Text) : Text :=
  let lastapp := lastApp file
  Odometer.increment numeric (if lastapp = [] then "app000".toList else lastapp)

/-- `    server $lastapp $pdns_name:8080 check # $instance_id` -/
def serverLine (app host id : Text) : Text :=
  "    server ".toList ++ app ++ ' ' :: (host ++ ":8080 check # ".toList ++ id)

/-- `/bin/echo ... >> $haproxy_file` -/
def addServer (file host id : Text) : Text :=
  file ++ serverLine (nextApp numeric file) host id ++ ['\n']

end Edits

/-- `sed -i "/$instance_id/d" $haproxy_file`; no character of an identifier means anything else in
a pattern. -/
def removeServer (file id : Text) : Text :=
  ((Text.lines file).filter fun l => !Text.has id (Text.chomp l)).flatten

/-! ## One message -/

inductive Outcome where
  /-- The message is none of the two, and is deleted. -/
  | ignored
  | died
  | updated (file : Text)

/-- `$pdns_name`: the last instance that is described gives it, and without one it is empty. -/
def pdnsName (reservations : List (List Host)) : Text :=
  (reservations.flatten.getLast?.map Host.text).getD []

/-- The body of the inner loop up to the deletion of the message. -/
def handle (numeric : Odometer.Numeric) (ec2 : Ec2) (file body : Text) : Outcome :=
  match actionOf body with
  -- it is deleted like one that has been dealt with
  | none => .ignored
  | some (action, id) =>
      match ec2.describe id with
      -- `describe_instances` dies, and the message stays in the queue
      | none => .died
      | some reservations =>
          match action with
          -- the same for a message that is handed out again: nothing looks whether the id is there
          | .launching => .updated (addServer numeric file (pdnsName reservations) id)
          | .terminating => .updated (removeServer file id)

/-! ## The queue -/

structure Message where
  number : Nat
  body : Text
  deriving DecidableEq

/-- Where the script is: before `ReceiveMessage`, or with a message that it has not dealt with yet,
or with one that it has dealt with and not deleted. -/
inductive Phase where
  | waiting
  | received (m : Message)
  | acted (m : Message)

structure World where
  /-- Every message that was ever sent. -/
  published : List Message
  /-- The messages that have not been deleted. One that has been may still be handed out again. -/
  queue : List Message
  phase : Phase
  file : Text

inductive Event where
  | publish (m : Message)
  | receive (m : Message)
  | discard (m : Message)
  | act (m : Message) (ec2 : Ec2)
  /-- EC2 is asked for the instance and does not know it, and the script is started again. -/
  | die (m : Message) (ec2 : Ec2)
  | delete (m : Message)
  /-- The script is ended from outside, and is started again. -/
  | crash

inductive Step (numeric : Odometer.Numeric) : World → Event → World → Prop where
  | publish {w : World} (m : Message) (fresh : m ∉ w.published) :
      Step numeric w (.publish m)
        { w with published := w.published ++ [m], queue := w.queue ++ [m] }
  -- of the messages that were ever sent, also one that has been deleted
  | receive {w : World} (m : Message) (hm : m ∈ w.published) (hw : w.phase = .waiting) :
      Step numeric w (.receive m) { w with phase := .received m }
  | discard {w : World} (m : Message) (hw : w.phase = .received m) (h : actionOf m.body = none) :
      Step numeric w (.discard m) { w with phase := .waiting, queue := w.queue.filter (· ≠ m) }
  -- the file is changed before the message is deleted, so that a crash may come in between
  | act {w : World} (m : Message) (ec2 : Ec2) (hw : w.phase = .received m) {file : Text}
      (h : handle numeric ec2 w.file m.body = .updated file) :
      Step numeric w (.act m ec2) { w with phase := .acted m, file := file }
  | die {w : World} (m : Message) (ec2 : Ec2) (hw : w.phase = .received m)
      (h : handle numeric ec2 w.file m.body = .died) :
      Step numeric w (.die m ec2) { w with phase := .waiting }
  | delete {w : World} (m : Message) (hw : w.phase = .acted m) :
      Step numeric w (.delete m) { w with phase := .waiting, queue := w.queue.filter (· ≠ m) }
  | crash {w : World} : Step numeric w .crash { w with phase := .waiting }

/-- The script is started on a queue and a file. -/
def system (numeric : Odometer.Numeric) (file : Text) : System World Event where
  start w := w.published = w.queue ∧ w.queue.Nodup ∧ w.phase = .waiting ∧ w.file = file
  step := Step numeric

end Autoscale
end TdsAdmin
