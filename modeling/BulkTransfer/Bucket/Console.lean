import BulkTransfer.Thrown

/-!
# The console

A console prints a line and a thrown value beside it.  The line is a format: a percent sign may
begin a form in which the value is to be printed.  A form that the value cannot take makes printing
throw.
-/

namespace BulkTransfer

/-- A console, by what it throws when it prints a line and a thrown value beside it.  A line without
a percent sign is printed as it is. -/
structure Console where
  fault? : Text → Thrown → Option Thrown
  fault?_eq_none : ∀ line value, Text.unit '%' ∉ line → fault? line value = none

namespace Console

/-- The console that prints every line as it is. -/
def plain : Console := ⟨fun _ _ => none, fun _ _ _ => rfl⟩

/-! ## Forms -/

/-- The forms that print a value as a number. -/
def numberForms : Text := "dif"

/-- The forms in which a line may ask for a value. -/
def forms : Text := numberForms ++ "sjoOc"

/-- The form in which a line first asks for a value.  Any other unit after a percent sign stands for
itself. -/
def form? : Text → Option UInt16
  | mark :: u :: rest =>
    if mark = Text.unit '%' then if u ∈ forms then some u else form? rest else form? (u :: rest)
  | _ => none

theorem form?_eq_none : ∀ {line : Text}, Text.unit '%' ∉ line → form? line = none
  | [], _ => rfl
  | [_], _ => rfl
  | mark :: u :: rest, h => by
    have hmark : mark ≠ Text.unit '%' := fun e => h (e ▸ List.mem_cons_self)
    rw [form?, if_neg hmark]
    exact form?_eq_none fun hmem => h (List.mem_cons_of_mem mark hmem)

/-- What is thrown in place of the number that a value without a text would be. -/
def noNumber : Thrown :=
  .plain .general ⟨"TypeError", "Cannot convert object to primitive value", none, none⟩

/-- The console that turns a value into a number where the line asks for one. -/
def formatting : Console where
  fault? line value :=
    if (form? line).any (numberForms.contains ·) && !value.hasText then some noNumber else none
  fault?_eq_none line value h := by simp [form?_eq_none h]

end Console

end BulkTransfer
