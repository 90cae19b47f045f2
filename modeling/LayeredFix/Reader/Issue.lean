import LayeredFix.Json.Basic

/-!
# What is wrong with a value

A value that is to become a record may be wrong in several places. An issue names the place, as the way to
it through members and items, and what is wrong there.
-/

namespace LayeredFix

/-- What can be wrong with a value. -/
inductive IssueKind where
  /-- A member without default is missing. -/
  | missing
  /-- A member has a name that the record does not know. -/
  | unknownMember
  /-- A member of a finished record is to be changed. -/
  | frozen
  /-- No integer. -/
  | noInt
  /-- A text that is no integer. -/
  | noIntText
  /-- An integer with too many digits. -/
  | longInt
  /-- A number with a fractional part where an integer is due. -/
  | fractionalInt
  /-- An infinity, or no number, where an integer is due. -/
  | unboundedInt
  /-- No floating-point number. -/
  | noReal
  /-- A text that is no floating-point number. -/
  | noRealText
  /-- No truth value. -/
  | noBool
  /-- A text or number that stands for no truth value. -/
  | unclearBool
  /-- No text. -/
  | noText
  /-- No list. -/
  | noList
  /-- No object. -/
  | noObject
  /-- No object where a record is due. -/
  | noRecord
  /-- None of the words allowed. -/
  | unknownWord
  /-- Not above the lower bound. -/
  | tooSmall
  deriving DecidableEq, Repr, Inhabited

/-- The word for a kind of issue. -/
def IssueKind.word : IssueKind → String
  | missing => "missing"
  | unknownMember => "extra_forbidden"
  | frozen => "frozen_instance"
  | noInt => "int_type"
  | noIntText => "int_parsing"
  | longInt => "int_parsing_size"
  | fractionalInt => "int_from_float"
  | unboundedInt => "finite_number"
  | noReal => "float_type"
  | noRealText => "float_parsing"
  | noBool => "bool_type"
  | unclearBool => "bool_parsing"
  | noText => "string_type"
  | noList => "list_type"
  | noObject => "dict_type"
  | noRecord => "model_type"
  | unknownWord => "enum"
  | tooSmall => "greater_than"

/-- A step on the way into a value. -/
inductive Access where
  /-- To the member of this name. -/
  | member (name : Text)
  /-- To the item of this number, from 0. -/
  | item (index : Nat)
  deriving DecidableEq, Repr, Inhabited

/-- What is wrong, and where. -/
structure Issue where
  /-- The way to the place. -/
  place : List Access
  /-- What is wrong there. -/
  kind : IssueKind
  deriving DecidableEq, Repr, Inhabited

/-- The issue of changing a member of a finished record. -/
def Issue.frozenMember (name : Text) : Issue := ⟨[.member name], .frozen⟩

/-- The issue as seen from one step further out. -/
def Issue.under (a : Access) (i : Issue) : Issue := ⟨a :: i.place, i.kind⟩

end LayeredFix
