import TdsAdmin.Users.Sync

/-!
# When the sync file lists the users of the input

Every row below the header comes to one element, whatever the pattern finds there
(`emitted_rows`). So the file is right only if every row has a user: a row without one cannot be
left out, and what is written for it is an empty `UUID` or that of a row before.
-/

set_option autoImplicit false

namespace TdsAdmin
namespace Users

/-! ## The pattern -/

/-- No comma is a hexadecimal digit. -/
theorem comma_stops : Pattern.Stops isHexDigit (Pattern.lit [',']) := by
  rw [← List.append_nil (Pattern.lit [','])]
  exact Pattern.stops_lit rfl

/-- The pattern takes the field in front of the first comma, if it is all hexadecimal digits. -/
theorem capturedUuid_field {field : Text} (h : ∀ c ∈ field, isHexDigit c = true) (rest : Text) :
    capturedUuid (field ++ ',' :: rest) = some field := by
  unfold capturedUuid
  have hmatch : Pattern.matchHere (.capture isHexDigit 0 :: Pattern.lit [','])
      (field ++ ',' :: rest) = some ([field], rest) := by
    apply (Pattern.matchHere_capture_iff comma_stops).mpr
    exact ⟨field, ',' :: rest, ([], rest), rfl, h, rfl, rfl⟩
  rw [hmatch]
  rfl

theorem userOf_some {row uuid : Text} (h : userOf row = some uuid) :
    capturedUuid row = some uuid := by
  unfold userOf at h
  split at h
  · rename_i field next fields hfields
    split at h
    · rename_i hfield
      obtain rfl := Option.some.inj h
      -- the row is the field, a comma and the rest
      have hrow : row = field ++ ',' :: [','].intercalate (next :: fields) := by
        have hjoin : [','].intercalate (row.splitOn ',') = row := List.intercalate_splitOn ','
        rw [hfields, List.intercalate_cons_cons] at hjoin
        rw [← hjoin, List.append_assoc]
        rfl
      rw [hrow]
      exact capturedUuid_field (fun c hc => List.all_eq_true.mp hfield.2 c hc) _
    · cases h
  · cases h

/-! ## The loop -/

/-- What the rows come to: a capture for each, the one before it where the pattern fails. -/
def captures (keeps : Bool) : Option Text → List Text → List Text
  | _, [] => []
  | capture, row :: rows =>
      let now := (capturedUuid row).or (if keeps then capture else none)
      now.getD [] :: captures keeps now rows

theorem captures_length (keeps : Bool) (capture : Option Text) (rows : List Text) :
    (captures keeps capture rows).length = rows.length := by
  induction rows generalizing capture with
  | nil => rfl
  | cons row rows ih => exact congrArg Nat.succ (ih _)

/-- Where the pattern matches everywhere no capture outlives its row. -/
theorem captures_users {keeps : Bool} {capture : Option Text} {rows : List Text}
    (h : ∀ row ∈ rows, (userOf row).isSome) :
    captures keeps capture rows = rows.filterMap userOf := by
  induction rows generalizing capture with
  | nil => rfl
  | cons row rows ih =>
    obtain ⟨uuid, huuid⟩ := Option.isSome_iff_exists.mp (h row List.mem_cons_self)
    rw [captures, userOf_some huuid, List.filterMap_cons_some huuid,
      ih fun r hr => h r (List.mem_cons_of_mem row hr)]
    rfl

theorem readRow_calls (keeps : Bool) (lines : List Text) (capture : Option Text)
    (calls : List Call) :
    (lines.foldl (readRow keeps) ⟨false, capture, calls⟩).calls =
      calls ++ (captures keeps capture (lines.map Text.chomp)).flatMap userCalls := by
  induction lines generalizing capture calls with
  | nil => exact (List.append_nil _).symm
  | cons line lines ih =>
    rw [List.foldl_cons, readRow, if_neg Bool.false_ne_true, ih, List.map_cons, captures,
      List.flatMap_cons, List.append_assoc]

theorem syncUsers_calls (keeps : Bool) (file : Text) :
    syncUsers keeps file = [.raw [], .startTag "Users".toList [], .raw "\n".toList] ++
      (captures keeps none (dataRows file)).flatMap userCalls ++
      [.endTag "Users".toList, .raw "\n".toList] := by
  unfold syncUsers dataRows
  cases Text.lines file with
  | nil => rfl
  | cons header lines =>
    -- the header row only clears the flag
    show _ ++ (lines.foldl (readRow keeps) ⟨false, none, []⟩).calls ++ _ = _
    rw [readRow_calls]
    rfl

/-! ## The file -/

/-- Between two elements. -/
def Reader.between (users : List User) : Reader := ⟨none, false, [], users⟩

theorem read_userCalls (uuid : Text) (s : Reader) (h : s.inUuid = false) :
    (userCalls uuid).foldl Reader.read s =
      { s with attributes := none, uuid := uuid, users := s.users ++ [syncElement uuid] } := by
  obtain ⟨attributes, inUuid, text, users⟩ := s
  obtain rfl : inUuid = false := h
  rfl

theorem read_users (uuids : List Text) (s : Reader) (h : s.inUuid = false) :
    ((uuids.flatMap userCalls).foldl Reader.read s).users = s.users ++ uuids.map syncElement ∧
      (s.attributes = none →
        ((uuids.flatMap userCalls).foldl Reader.read s).attributes = none) := by
  induction uuids generalizing s with
  | nil => exact ⟨(List.append_nil _).symm, id⟩
  | cons uuid uuids ih =>
    rw [List.flatMap_cons, List.foldl_append, read_userCalls uuid s h]
    obtain ⟨husers, hclosed⟩ := ih { s with
      attributes := none, uuid := uuid, users := s.users ++ [syncElement uuid] } h
    refine ⟨?_, fun _ => hclosed rfl⟩
    rw [husers, List.map_cons, List.append_assoc]
    rfl

/-- **Every row below the header comes to one element.** -/
theorem emitted_rows (keeps : Bool) (file : Text) :
    emittedUsers (syncUsers keeps file)
      = (captures keeps none (dataRows file)).map syncElement := by
  obtain ⟨husers, hclosed⟩ := read_users (captures keeps none (dataRows file)) Reader.start rfl
  unfold emittedUsers
  rw [syncUsers_calls, List.foldl_append, List.foldl_append]
  show (([Call.endTag "Users".toList, Call.raw "\n".toList]).foldl Reader.read
    (((captures keeps none (dataRows file)).flatMap userCalls).foldl Reader.read
      Reader.start)).users = _
  -- nothing is open when the last tag comes
  have hlast : ∀ s : Reader, s.attributes = none →
      (([Call.endTag "Users".toList, Call.raw "\n".toList]).foldl Reader.read s).users =
        s.users := by
    intro s hs
    obtain ⟨attributes, inUuid, text, users⟩ := s
    obtain rfl : attributes = none := hs
    rfl
  rw [hlast _ (hclosed rfl), husers]
  rfl

/-- **The file lists the users of the input exactly when every row below the header has one.** -/
theorem lists_users_iff (keeps : Bool) (file : Text) :
    emittedUsers (syncUsers keeps file) = ((dataRows file).filterMap userOf).map syncElement ↔
      ∀ row ∈ dataRows file, (userOf row).isSome := by
  rw [emitted_rows]
  constructor
  · intro h
    -- an element for every row leaves no room for a row without a user
    have hcount := congrArg List.length h
    rw [List.length_map, List.length_map, captures_length] at hcount
    exact List.filterMap_length_eq_length.mp hcount.symm
  · intro h
    rw [captures_users h]

/-- A UUID in capital letters. -/
def capitalRow : Text := "UUID,Name\nBEEF,x\n".toList

theorem capital_row_has_element : ¬ ∀ (keeps : Bool) (file : Text),
    emittedUsers (syncUsers keeps file) =
      ((dataRows file).filterMap userOf).map syncElement := by
  intro h
  have hrow := h true capitalRow
  rw [emitted_rows] at hrow
  exact absurd (congrArg List.length hrow) (by decide)

end Users
end TdsAdmin
