import IntCalc.Binary64
import IntCalc.IntType

/-!
# Columns of numbers

The numbers of a column are kept together in one `Storage`, which
`NumberColumn.storage` chooses for all of them. Numbers that no 64-bit type
has room for are kept unbounded. Of the others a column with a gap keeps
binary64 numbers, and one without keeps integers. In the end every column
has to hold signed 64-bit integers again; `Storage.check` says whether it
can, and `Storage.kept` what has become of a number. `check_storage_of_small`
and `Storage.kept_eq_self` say that a column of numbers of at most 53 bits
can always be stored, and without a change.
-/

namespace IntCalc

/-- What the numbers of a column are kept as. -/
inductive Storage
  | int64
  | uint64
  | binary64
  | unbounded
  deriving DecidableEq, Repr

/-- Why a column cannot hold its numbers. -/
inductive ColumnError
  /-- No 64-bit type has room for the numbers. -/
  | tooLarge
  /-- A number would change its value. -/
  | unequal (storage : Storage)
  deriving DecidableEq, Repr

namespace Storage

/-- The name of a storage. -/
def name : Storage → String
  | int64 => "int64"
  | uint64 => "uint64"
  | binary64 => "float64"
  | unbounded => "unbounded"

/-- What becomes of a number. -/
def kept : Storage → Int → Int
  | binary64, n => Binary64.round n
  | int64, n | uint64, n | unbounded, n => n

/-- Whether the numbers of a column can be held as 64-bit integers. -/
def check (s : Storage) (entries : List (Option Int)) : Except ColumnError Unit :=
  match s with
  | int64 => .ok ()
  | uint64 => .error (.unequal s)
  | unbounded => .error .tooLarge
  | binary64 =>
    if entries.all fun e => e.all fun n => IntType.int64.range.Contains (s.kept n) then .ok ()
    else .error (.unequal s)

/-- Numbers of at most 53 bits are kept as they are. -/
theorem kept_eq_self (s : Storage) {n : Int} (h : n.natAbs < 9007199254740992) :
    s.kept n = n := by
  cases s
  case binary64 => exact Binary64.round_eq_self h
  all_goals rfl

end Storage

/-- The text of a column error. -/
def ColumnError.message : ColumnError → String
  | tooLarge => "Python int too large to convert to C long"
  | unequal storage => "cannot safely cast non-equivalent " ++ storage.name ++ " to int64"

/-- The class of a column error. -/
def ColumnError.kind : ColumnError → String
  | tooLarge => "OverflowError"
  | unequal _ => "TypeError"

namespace NumberColumn

/-- Whether a type has room for every number of a column. -/
def fits (t : IntType) (entries : List (Option Int)) : Bool :=
  entries.all fun e => e.all fun n => t.range.Contains n

/-- Whether an entry of a column is missing. -/
def hasGap (entries : List (Option Int)) : Bool :=
  entries.any Option.isNone

/-- The storage of a column. -/
def storage (entries : List (Option Int)) : Storage :=
  if fits .int64 entries then
    if hasGap entries then .binary64 else .int64
  else if fits .uint64 entries then
    if hasGap entries then .binary64 else .uint64
  else .unbounded

/-- Every number of a column has at most 53 bits. -/
def Small (entries : List (Option Int)) : Prop :=
  ∀ n, some n ∈ entries → n.natAbs < 9007199254740992

/-- Small numbers are signed 64-bit integers. -/
theorem contains_of_small {n : Int} (h : n.natAbs < 9007199254740992) :
    IntType.int64.range.Contains n := by
  simp only [Range.Contains, IntType.range]
  omega

/-- The signed 64-bit type has room for a column of small numbers. -/
theorem fits_int64_of_small {entries : List (Option Int)} (h : Small entries) :
    fits .int64 entries = true := by
  rw [fits, List.all_eq_true]
  intro e he
  cases e with
  | none => rfl
  | some n => rw [Option.all_some, decide_eq_true_eq]; exact contains_of_small (h n he)

/-- A binary64 column can hold small numbers as 64-bit integers. -/
theorem check_binary64_of_small {entries : List (Option Int)} (h : Small entries) :
    Storage.binary64.check entries = .ok () := by
  have : (entries.all fun e => e.all fun n =>
      IntType.int64.range.Contains (Storage.binary64.kept n)) = true := by
    rw [List.all_eq_true]
    intro e he
    cases e with
    | none => rfl
    | some n =>
      rw [Option.all_some, Storage.kept_eq_self _ (h n he), decide_eq_true_eq]
      exact contains_of_small (h n he)
  rw [Storage.check, if_pos this]

/-- A column of small numbers can be stored. -/
theorem check_storage_of_small {entries : List (Option Int)} (h : Small entries) :
    (storage entries).check entries = .ok () := by
  rw [storage, if_pos (fits_int64_of_small h)]
  split
  · exact check_binary64_of_small h
  · rfl

end NumberColumn

end IntCalc
