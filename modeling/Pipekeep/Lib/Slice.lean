import Mathlib.Data.List.Basic

/-!
# Slices of an endless stream, and logs of tagged elements

A byte stream read at absolute positions is a function `Nat → α`. `slice S lo n` is its `n`
elements from `lo` on. A receiver that is handed pieces of the stream is recorded as a LOG: each
element with the absolute position the sender meant it for. `Tagged S log hi` is what exactly-once
delivery asks of such a log: positions strictly increase, each element is the stream's at its
position, and every position is below `hi`.

`Tagged.snoc` is the one step that delivery protocols take, and `full_snoc` its gap-free form.
-/

namespace Slice

variable {α : Type*}

/-- `n` elements of `S` from position `lo` on. -/
def slice (S : Nat → α) (lo n : Nat) : List α := (List.range' lo n).map S

@[simp] theorem length_slice (S : Nat → α) (lo n : Nat) : (slice S lo n).length = n := by
  simp only [slice, List.length_map, List.length_range']

@[simp] theorem slice_zero (S : Nat → α) (lo : Nat) : slice S lo 0 = [] := rfl

theorem slice_add (S : Nat → α) (lo n m : Nat) :
    slice S lo (n + m) = slice S lo n ++ slice S (lo + n) m := by
  unfold slice
  rw [← List.map_append, List.range'_append_1]

theorem drop_slice (S : Nat → α) (lo n k : Nat) :
    (slice S lo n).drop k = slice S (lo + k) (n - k) := by
  simp only [slice, ← List.map_drop, List.drop_range', Nat.mul_one]

theorem take_slice (S : Nat → α) (lo : Nat) {n k : Nat} (h : k ≤ n) :
    (slice S lo n).take k = slice S lo k := by
  simp only [slice, ← List.map_take, List.take_range'_of_length_ge h]

/-- The elements of a piece with their absolute positions, the first one at `lo`. -/
def tag (lo : Nat) : List α → List (Nat × α)
  | [] => []
  | x :: xs => (lo, x) :: tag (lo + 1) xs

@[simp] theorem length_tag (lo : Nat) (xs : List α) : (tag lo xs).length = xs.length := by
  induction xs generalizing lo with
  | nil => rfl
  | cons x xs ih => simp only [tag, List.length_cons, ih]

theorem tag_append (lo : Nat) (xs ys : List α) :
    tag lo (xs ++ ys) = tag lo xs ++ tag (lo + xs.length) ys := by
  induction xs generalizing lo with
  | nil => rfl
  | cons x xs ih =>
    simp only [List.cons_append, tag, ih, List.length_cons, Nat.add_assoc, Nat.add_comm 1]

theorem map_fst_tag (lo : Nat) (xs : List α) :
    (tag lo xs).map Prod.fst = List.range' lo xs.length := by
  induction xs generalizing lo with
  | nil => rfl
  | cons x xs ih => simp only [tag, List.map_cons, ih, List.length_cons, List.range'_succ]

theorem map_snd_tag (lo : Nat) (xs : List α) : (tag lo xs).map Prod.snd = xs := by
  induction xs generalizing lo with
  | nil => rfl
  | cons x xs ih => simp only [tag, List.map_cons, ih]

/-- The positions of a tagged piece lie in its range. -/
theorem tag_range {lo : Nat} {xs : List α} {e : Nat × α} (h : e ∈ tag lo xs) :
    lo ≤ e.1 ∧ e.1 < lo + xs.length := by
  induction xs generalizing lo with
  | nil => cases h
  | cons x xs ih =>
    rw [List.length_cons]
    rcases List.mem_cons.mp h with rfl | h
    · exact ⟨Nat.le_refl _, by omega⟩
    · have := ih h
      omega

/-- A tagged slice carries the stream's element at every position. -/
theorem tag_slice_agrees (S : Nat → α) {lo n : Nat} {e : Nat × α} (h : e ∈ tag lo (slice S lo n)) :
    e.2 = S e.1 := by
  induction n generalizing lo with
  | zero => cases h
  | succ n ih =>
    simp only [slice, List.range'_succ, List.map_cons] at h
    rcases List.mem_cons.mp h with rfl | h
    · rfl
    · exact ih h

theorem tag_increasing (lo : Nat) (xs : List α) :
    (tag lo xs).Pairwise fun a b => a.1 < b.1 := by
  induction xs generalizing lo with
  | nil => exact List.Pairwise.nil
  | cons x xs ih =>
    refine List.Pairwise.cons (fun e he => ?_) (ih (lo + 1))
    exact (tag_range he).1

/-- **Exactly-once delivery below `hi`**: no position twice or out of order, each element the
stream's own, nothing at or past `hi`. -/
structure Tagged (S : Nat → α) (log : List (Nat × α)) (hi : Nat) : Prop where
  increasing : log.Pairwise fun a b => a.1 < b.1
  agrees : ∀ e ∈ log, e.2 = S e.1
  below : ∀ e ∈ log, e.1 < hi

theorem tagged_nil (S : Nat → α) (hi : Nat) : Tagged S [] hi :=
  ⟨List.Pairwise.nil, nofun, nofun⟩

/-- Raising the bound keeps a log delivered. -/
theorem Tagged.mono {S : Nat → α} {log : List (Nat × α)} {hi hi' : Nat} (h : Tagged S log hi)
    (le : hi ≤ hi') : Tagged S log hi' :=
  ⟨h.increasing, h.agrees, fun e he => Nat.lt_of_lt_of_le (h.below e he) le⟩

/-- Handing over the next slice at or past the bound keeps a log delivered. -/
theorem Tagged.snoc {S : Nat → α} {log : List (Nat × α)} {hi lo : Nat} (h : Tagged S log hi)
    (le : hi ≤ lo) (n : Nat) : Tagged S (log ++ tag lo (slice S lo n)) (lo + n) := by
  have inside : ∀ e ∈ tag lo (slice S lo n), lo ≤ e.1 ∧ e.1 < lo + n := fun e he => by
    simpa only [length_slice] using tag_range he
  refine ⟨List.pairwise_append.mpr ⟨h.increasing, tag_increasing _ _, fun a ha b hb => ?_⟩,
    fun e he => ?_, fun e he => ?_⟩
  · have := h.below a ha
    have := (inside b hb).1
    omega
  · rcases List.mem_append.mp he with he | he
    · exact h.agrees e he
    · exact tag_slice_agrees S he
  · rcases List.mem_append.mp he with he | he
    · have := h.below e he
      omega
    · exact (inside e he).2

/-- A gap-free log grows gap-free when the next slice starts at its end. -/
theorem full_snoc (S : Nat → α) (hi n : Nat) :
    tag 0 (slice S 0 hi) ++ tag hi (slice S hi n) = tag 0 (slice S 0 (hi + n)) := by
  rw [slice_add, tag_append, length_slice, Nat.zero_add]

/-! ## Stretches of a list that grows -/

/-- The elements of `xs` at the positions from `lo` up to `hi`. -/
def stretch (xs : List α) (lo hi : Nat) : List α := (xs.drop lo).take (hi - lo)

@[simp] theorem stretch_self (xs : List α) (lo : Nat) : stretch xs lo lo = [] := by
  simp only [stretch, Nat.sub_self, List.take_zero]

theorem length_stretch {xs : List α} {lo hi : Nat} (h : hi ≤ xs.length) :
    (stretch xs lo hi).length = hi - lo := by
  simp only [stretch, List.length_take, List.length_drop]
  omega

/-- Two stretches that meet are one. -/
theorem stretch_append (xs : List α) {lo mid hi : Nat} (h₁ : lo ≤ mid) (h₂ : mid ≤ hi) :
    stretch xs lo mid ++ stretch xs mid hi = stretch xs lo hi := by
  unfold stretch
  have hsplit : hi - lo = (mid - lo) + (hi - mid) := by omega
  have hdrop : xs.drop mid = (xs.drop lo).drop (mid - lo) := by
    rw [List.drop_drop]
    congr 1
    omega
  rw [hsplit, List.take_add, hdrop]

/-- A list keeps its stretches when it grows at the end. -/
theorem stretch_of_isPrefix {xs ys : List α} (h : xs <+: ys) {lo hi : Nat} (le : hi ≤ xs.length) :
    stretch ys lo hi = stretch xs lo hi := by
  obtain ⟨zs, rfl⟩ := h
  unfold stretch
  by_cases hlo : lo ≤ xs.length
  · rw [List.drop_append_of_le_length hlo, List.take_append_of_le_length]
    rw [List.length_drop]
    omega
  · have hzero : hi - lo = 0 := by omega
    rw [hzero, List.take_zero, List.take_zero]

/-- The first elements of a stretch, and the rest. -/
theorem take_stretch (xs : List α) {lo hi k : Nat} (h : lo + k ≤ hi) :
    (stretch xs lo hi).take k = stretch xs lo (lo + k) := by
  unfold stretch
  rw [List.take_take, Nat.add_sub_cancel_left, Nat.min_eq_left (by omega)]

theorem drop_stretch (xs : List α) (lo hi k : Nat) :
    (stretch xs lo hi).drop k = stretch xs (lo + k) hi := by
  unfold stretch
  rw [List.drop_take, List.drop_drop, Nat.sub_sub]

/-- What a stretch holds at a position is what the list holds there. -/
theorem getElem?_stretch (xs : List α) {lo hi i : Nat} (h₁ : lo ≤ i) (h₂ : i < hi) :
    (stretch xs lo hi)[i - lo]? = xs[i]? := by
  unfold stretch
  rw [List.getElem?_take_of_lt (by omega), List.getElem?_drop]
  congr 1
  omega

end Slice
