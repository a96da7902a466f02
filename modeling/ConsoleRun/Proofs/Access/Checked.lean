import ConsoleRun.Proofs.Text.Bytes

-- Reading by positions that are checked. A position with nothing at it, a range that is out of
-- order or reaches too far, and a cut through a character are faults, not empty answers. A
-- walk that is given too few steps is one as well, so an answer also means that it ended.

namespace ConsoleRun

inductive Fault where
  | index (position : Nat)
  | range (start stop : Nat)
  -- A position in front of the first one.
  | below
  | endless
  deriving DecidableEq, Repr

abbrev Checked (α : Type) := Except Fault α

namespace Checked

variable {α β : Type}

def item (list : List α) (position : Nat) : Checked α :=
  match list[position]? with
  | some found => .ok found
  | none => .error (.index position)

-- The items of a range.
def items (list : List α) (start stop : Nat) : Checked (List α) :=
  if start ≤ stop && stop ≤ list.length then .ok ((list.drop start).take (stop-start))
  else .error (.range start stop)

-- The items from a position on.
def rest (list : List α) (start : Nat) : Checked (List α) := items list start list.length

-- The text of a range of bytes.
def cut (text : Text) (start stop : Nat) : Checked Text :=
  match text.slice? start stop with
  | some found => .ok found
  | none => .error (.range start stop)

-- The position a number of bytes earlier.
def earlier (position count : Nat) : Checked Nat :=
  if count ≤ position then .ok (position-count) else .error .below

-- What is found for the entries of a list, in order.
def choose (find : α → Checked (Option β)) (list : List α) : Checked (List β) := do
  let found ← list.mapM find
  .ok (found.filterMap id)

-- Goes on with what was found, if anything was.
def follow (read : Checked (Option α)) (next : α → Checked (Option β)) : Checked (Option β) := do
  match ← read with
  | some found => next found
  | none => .ok none

theorem ok_bind (value : α) (next : α → Checked β) : (Except.ok value >>= next) = next value := rfl

variable {front back list : List α} {here : α} {text : Text} {start stop : Nat}

theorem mapM_ok {read : α → Checked β} {value : α → β}
    (each : ∀ entry ∈ list, read entry = .ok (value entry)) : list.mapM read = .ok (list.map value) := by
  induction list with
  | nil => rfl
  | cons entry rest ih =>
    rw [List.mapM_cons,each entry List.mem_cons_self,ok_bind,
      ih fun other member => each other (List.mem_cons_of_mem _ member)]
    rfl

theorem choose_ok {find : α → Checked (Option β)} {value : α → Option β}
    (each : ∀ entry ∈ list, find entry = .ok (value entry)) :
    choose find list = .ok (list.filterMap value) := by
  rw [choose,mapM_ok each,ok_bind,List.filterMap_map]
  rfl

section Follow

variable {read : Checked (Option α)} {next : α → Checked (Option β)} {found : Option α}
  (reads : read = .ok found)
include reads

theorem follow_ok {value : α → Option β}
    (each : ∀ entry, found = some entry → next entry = .ok (value entry)) :
    follow read next = .ok (found.bind value) := by
  rw [follow,reads,ok_bind]
  cases found with
  | none => rfl
  | some entry => exact each entry rfl

theorem follow_map {value : α → β}
    (each : ∀ entry, found = some entry → next entry = .ok (some (value entry))) :
    follow read next = .ok (found.map value) := by
  rw [follow_ok reads each]
  cases found <;> rfl

end Follow

theorem item_append : item (front ++ here :: back) front.length = .ok here := by
  simp [item]

theorem item_eq_ok (read : list[position]? = some here) : item list position = .ok here := by
  rw [item,read]

theorem items_append : items (front ++ list ++ back) front.length (front.length+list.length) =
    .ok list := by
  simp [items]

theorem items_text (front middle back : Text) :
    items (front ++ middle ++ back).bytes (Text.size front) (Text.size front+Text.size middle) =
      .ok middle.bytes := by
  rw [Text.bytes_append,Text.bytes_append,← Text.length_bytes,← Text.length_bytes]
  exact items_append

theorem rest_append : rest (front ++ back) front.length = .ok back := by
  simp [rest,items]

theorem cut_ok (first : Text.Boundary text start) (last : Text.Boundary text stop)
    (ordered : start ≤ stop) : cut text start stop = .ok (text.slice start stop) := by
  rw [cut,first.slice? last ordered]

theorem earlier_ok (reached : count ≤ position) : earlier position count = .ok (position-count) :=
  if_pos reached

end Checked
end ConsoleRun
