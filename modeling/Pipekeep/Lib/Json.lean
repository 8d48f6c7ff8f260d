import Mathlib.Algebra.Group.Nat.Defs

/-!
# Compact JSON

Texts of JSON values, as a compact writer emits them. Strings are written without escapes, so a
caller passes only texts that need none.
-/

namespace Json

variable {α : Type}

def string (s : String) : List Char := '\x22' :: (s.toList ++ ['\x22'])

def number (n : Nat) : List Char := Nat.toDigits 10 n

def integer (n : Int) : List Char :=
  if n < 0 then '-' :: number n.natAbs else number n.natAbs

def boolean (b : Bool) : List Char := if b then "true".toList else "false".toList

/-- An optional value, `null` where there is none. -/
def optional (write : α → List Char) : Option α → List Char
  | none => "null".toList
  | some a => write a

/-- A member of an object: its name and its value. -/
def member (name : String) (value : List Char) : List Char := string name ++ ':' :: value

def members : List (String × List Char) → List Char
  | [] => []
  | [m] => member m.1 m.2
  | m :: m' :: ms => member m.1 m.2 ++ ',' :: members (m' :: ms)

def object (ms : List (String × List Char)) : List Char := '\x7b' :: (members ms ++ ['\x7d'])

/-! ## Lengths -/

/-- What the members of an object take, each with its quotes, colon and comma. -/
def size : List (String × List Char) → Nat
  | [] => 0
  | m :: ms => m.1.toList.length + m.2.length + 4 + size ms

theorem length_string (s : String) : (string s).length = s.toList.length + 2 := by
  rw [string, List.length_cons, List.length_append]
  rfl

theorem length_member (name : String) (value : List Char) :
    (member name value).length = name.toList.length + value.length + 3 := by
  rw [member, List.length_append, length_string, List.length_cons]
  omega

theorem length_members_le (ms : List (String × List Char)) : (members ms).length ≤ size ms := by
  induction ms with
  | nil => exact Nat.le_refl 0
  | cons m ms ih =>
    cases ms with
    | nil =>
      rw [members, length_member, size]
      omega
    | cons m' ms =>
      rw [members, List.length_append, length_member, List.length_cons, size]
      omega

theorem length_object_le (ms : List (String × List Char)) :
    (object ms).length ≤ size ms + 2 := by
  have := length_members_le ms
  rw [object, List.length_cons, List.length_append, List.length_singleton]
  omega

/-- A number below `10 ^ width` has at most `width` digits. -/
theorem length_number_le {n : Nat} (width : Nat) (h : n < 10 ^ width) (hw : 0 < width) :
    (number n).length ≤ width :=
  (Nat.length_toDigits_le_iff (by decide) hw).mpr h

theorem length_integer_le {n : Int} (width : Nat) (h : n.natAbs < 10 ^ width) (hw : 0 < width) :
    (integer n).length ≤ width + 1 := by
  have := length_number_le width h hw
  unfold integer
  split
  · rw [List.length_cons]
    omega
  · omega

theorem length_boolean_le (b : Bool) : (boolean b).length ≤ 5 := by
  cases b <;> decide

theorem length_optional_le {write : α → List Char} {a : Option α} {width : Nat}
    (hw : 4 ≤ width) (h : ∀ b, a = some b → (write b).length ≤ width) :
    (optional write a).length ≤ width := by
  cases a with
  | none => exact hw
  | some b => exact h b rfl

end Json
