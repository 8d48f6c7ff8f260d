import Mathlib.Data.List.Basic

/-!
# Escaped strings

The bytes of a JSON string, as a compact writer emits them: two for a quote, a backslash and five of
the control characters, six for each other control character, and every other byte as it is. So the
string of a text has no raw newline, and it takes at least the bytes of the text and at most six
times as many.
-/

namespace Json

def newline : UInt8 := 0x0a

/-- A hexadecimal digit, in lower case. -/
def hexDigit (n : Nat) : UInt8 := (Nat.digitChar n).toUInt8

def escapeByte (b : UInt8) : List UInt8 :=
  if b = 0x22 ∨ b = 0x5c then [0x5c, b]
  else if b = 0x08 then [0x5c, 0x62]
  else if b = 0x09 then [0x5c, 0x74]
  else if b = 0x0a then [0x5c, 0x6e]
  else if b = 0x0c then [0x5c, 0x66]
  else if b = 0x0d then [0x5c, 0x72]
  else if b < 0x20 then
    [0x5c, 0x75, 0x30, 0x30, hexDigit (b.toNat / 16), hexDigit (b.toNat % 16)]
  else [b]

def escaped (bytes : List UInt8) : List UInt8 := bytes.flatMap escapeByte

def quoted (bytes : List UInt8) : List UInt8 := 0x22 :: (escaped bytes ++ [0x22])

/-! ## Newlines -/

theorem hexDigit_ne_newline {n : Nat} (h : n < 16) : hexDigit n ≠ newline := by
  have all : ∀ n < 16, hexDigit n ≠ newline := by decide
  exact all n h

theorem newline_not_mem_escapeByte (b : UInt8) : newline ∉ escapeByte b := by
  unfold escapeByte
  split
  next hspecial =>
    intro hmem
    rcases List.mem_cons.mp hmem with heq | hmem
    · cases heq
    · obtain rfl := List.mem_singleton.mp hmem
      rcases hspecial with heq | heq <;> cases heq
  split
  · decide
  split
  · decide
  split
  · decide
  split
  · decide
  split
  · decide
  next hnewline _ _ =>
  split
  next hcontrol =>
    have hlow : b.toNat < 32 := UInt8.lt_iff_toNat_lt.mp hcontrol
    have hfirst := hexDigit_ne_newline (n := b.toNat / 16) (by omega)
    have hsecond := hexDigit_ne_newline (n := b.toNat % 16) (by omega)
    have hfixed : newline ∉ [(0x5c : UInt8), 0x75, 0x30, 0x30] := by decide
    intro hmem
    have hmem : newline ∈ [0x5c, 0x75, 0x30, 0x30] ++
        [hexDigit (b.toNat / 16), hexDigit (b.toNat % 16)] := hmem
    rcases List.mem_append.mp hmem with hmem | hmem
    · exact hfixed hmem
    rcases List.mem_cons.mp hmem with heq | hmem
    · exact hfirst heq.symm
    · exact hsecond (List.mem_singleton.mp hmem).symm
  next =>
    intro hmem
    exact hnewline (List.mem_singleton.mp hmem).symm

theorem newline_not_mem_escaped (bytes : List UInt8) : newline ∉ escaped bytes := by
  intro hmem
  obtain ⟨b, -, hb⟩ := List.mem_flatMap.mp hmem
  exact newline_not_mem_escapeByte b hb

theorem newline_not_mem_quoted (bytes : List UInt8) : newline ∉ quoted bytes := by
  have hquote : newline ≠ 0x22 := by decide
  intro hmem
  rcases List.mem_cons.mp hmem with heq | hmem
  · exact hquote heq
  rcases List.mem_append.mp hmem with hmem | hmem
  · exact newline_not_mem_escaped bytes hmem
  · exact hquote (List.mem_singleton.mp hmem)

/-! ## Lengths -/

theorem length_escapeByte (b : UInt8) :
    1 ≤ (escapeByte b).length ∧ (escapeByte b).length ≤ 6 := by
  unfold escapeByte
  split_ifs <;> exact ⟨Nat.succ_pos _, Nat.le_of_ble_eq_true rfl⟩

theorem escaped_append (xs ys : List UInt8) : escaped (xs ++ ys) = escaped xs ++ escaped ys :=
  List.flatMap_append

theorem le_length_escaped (bytes : List UInt8) : bytes.length ≤ (escaped bytes).length := by
  induction bytes with
  | nil => exact Nat.le_refl 0
  | cons b bytes ih =>
    have hbyte := (length_escapeByte b).1
    have ih : bytes.length ≤ (bytes.flatMap escapeByte).length := ih
    rw [escaped, List.flatMap_cons, List.length_append, List.length_cons]
    omega

/-- What each element takes at most, a list of them does. -/
theorem length_flatMap_le {α β : Type*} {f : α → List β} {width : Nat} {xs : List α}
    (h : ∀ x ∈ xs, (f x).length ≤ width) : (xs.flatMap f).length ≤ width * xs.length := by
  induction xs with
  | nil => exact Nat.le_refl 0
  | cons x xs ih =>
    have hx := h x List.mem_cons_self
    have hxs := ih fun y hy => h y (List.mem_cons_of_mem x hy)
    rw [List.flatMap_cons, List.length_append, List.length_cons, Nat.mul_succ]
    omega

theorem length_escaped_le (bytes : List UInt8) : (escaped bytes).length ≤ 6 * bytes.length :=
  length_flatMap_le fun b _ => (length_escapeByte b).2

theorem length_quoted (bytes : List UInt8) : (quoted bytes).length = (escaped bytes).length + 2 := by
  rw [quoted, List.length_cons, List.length_append]
  rfl

end Json
