import Mathlib.Init

/-!
# Decimal texts of bounded numbers

How a text is parsed as an unsigned integer of a type with a largest value: an optional plus sign
and at least one digit, checked from the left. What `Nat.toDigits` writes of a number that fits is
parsed back.
-/

namespace Decimal

inductive ParseError
  | empty
  | invalidDigit
  | overflow
  deriving DecidableEq, Repr

def ParseError.text : ParseError → String
  | .empty => "cannot parse integer from empty string"
  | .invalidDigit => "invalid digit found in string"
  | .overflow => "number too large to fit in target type"

/-- The digits from the left, with the value of those before. -/
def digits (bound value : Nat) : List Char → Except ParseError Nat
  | [] => .ok value
  | c :: cs =>
    if c.isDigit then
      if 10 * value + (c.toNat - '0'.toNat) ≤ bound then
        digits bound (10 * value + (c.toNat - '0'.toNat)) cs
      else
        .error .overflow
    else
      .error .invalidDigit

def parse (bound : Nat) : List Char → Except ParseError Nat
  | [] => .error .empty
  | ['+'] => .error .invalidDigit
  | '+' :: cs => digits bound 0 cs
  | cs => digits bound 0 cs

variable {bound value n : Nat} {cs : List Char}

/-- More digits never make a value smaller. -/
theorem le_ofDigitChars : value ≤ Nat.ofDigitChars 10 cs value := by
  induction cs generalizing value with
  | nil => exact Nat.le_of_eq Nat.ofDigitChars_nil.symm
  | cons c cs ih =>
    rw [Nat.ofDigitChars_cons]
    exact Nat.le_trans (by omega) ih

theorem digits_eq_ok (hdigits : ∀ c ∈ cs, c.isDigit = true)
    (hbound : Nat.ofDigitChars 10 cs value ≤ bound) :
    digits bound value cs = .ok (Nat.ofDigitChars 10 cs value) := by
  induction cs generalizing value with
  | nil => rw [digits, Nat.ofDigitChars_nil]
  | cons c cs ih =>
    rw [Nat.ofDigitChars_cons] at hbound ⊢
    have fits : 10 * value + (c.toNat - '0'.toNat) ≤ bound := Nat.le_trans le_ofDigitChars hbound
    rw [digits, if_pos (hdigits c List.mem_cons_self), if_pos fits]
    exact ih (fun d hd => hdigits d (List.mem_cons_of_mem _ hd)) hbound

theorem parse_cons {c : Char} (h : c ≠ '+') : parse bound (c :: cs) = digits bound 0 (c :: cs) := by
  unfold parse
  split
  next heq => cases heq
  next heq => exact absurd (List.cons.inj heq).1 h
  next heq => exact absurd (List.cons.inj heq).1 h
  next => rfl

/-- **A number that fits is parsed back.** -/
theorem parse_toDigits (h : n ≤ bound) : parse bound (Nat.toDigits 10 n) = .ok n := by
  have hdigits : ∀ c ∈ Nat.toDigits 10 n, c.isDigit = true := fun c hc =>
    Nat.isDigit_of_mem_toDigits (by decide) (by decide) hc
  have hvalue : Nat.ofDigitChars 10 (Nat.toDigits 10 n) 0 = n := Nat.ofDigitChars_ten_toDigits
  have read : digits bound 0 (Nat.toDigits 10 n) = .ok n := by
    rw [digits_eq_ok hdigits (by rw [hvalue]; exact h), hvalue]
  cases hcs : Nat.toDigits 10 n with
  | nil => exact absurd hcs Nat.toDigits_ne_nil
  | cons c cs =>
    have hc : c ≠ '+' := by
      rintro rfl
      exact absurd (hdigits '+' (by rw [hcs]; exact List.mem_cons_self)) (by decide)
    rw [parse_cons hc, ← hcs]
    exact read

theorem digits_le (hvalue : value ≤ bound) (h : digits bound value cs = .ok n) : n ≤ bound := by
  induction cs generalizing value with
  | nil =>
    cases h
    exact hvalue
  | cons c cs ih =>
    rw [digits] at h
    split at h
    · split at h
      next fits => exact ih fits h
      · cases h
    · cases h

theorem parse_le (h : parse bound cs = .ok n) : n ≤ bound := by
  unfold parse at h
  split at h
  · cases h
  · cases h
  · exact digits_le (Nat.zero_le _) h
  · exact digits_le (Nat.zero_le _) h

end Decimal
