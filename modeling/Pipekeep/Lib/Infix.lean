import Mathlib.Data.List.Infix
import Mathlib.Data.List.TakeWhile

/-!
# A part inside a longer text

When a text embeds another one, an occurrence of a part in the whole lies in the embedded text
unless it overlaps what stands around it. `Closes part a` says that none begins in `a` and runs out
of it, and `Opens part b` that none runs into `b`; both can be evaluated. What is dropped from an
end, or written in place of a letter, is treated by the part's first and last letters.
-/

namespace Infix

variable {α : Type*} {part a b xs : List α}

/-- No occurrence of the part begins in `a`. -/
def Closes (part a : List α) : Prop :=
  ¬part <:+: a ∧ ∀ t ∈ part.reverse.tails, t ≠ [] → ¬t <+: a.reverse

/-- No occurrence of the part ends in `b`. -/
def Opens (part b : List α) : Prop :=
  ¬part <:+: b ∧ ∀ t ∈ part.tails, t ≠ [] → ¬t <+: b

instance [DecidableEq α] (part a : List α) : Decidable (Closes part a) :=
  inferInstanceAs (Decidable (_ ∧ _))

instance [DecidableEq α] (part b : List α) : Decidable (Opens part b) :=
  inferInstanceAs (Decidable (_ ∧ _))

/-- After `a`, an occurrence lies in the rest. -/
theorem Closes.append (h : Closes part a) (xs : List α) : part <:+: a ++ xs ↔ part <:+: xs := by
  constructor
  · intro hin
    rcases List.infix_append_iff.mp hin with hin | hin | ⟨front, back, rfl, hfront, hback⟩
    · exact absurd hin h.1
    · exact hin
    · by_cases hnil : front = []
      · subst hnil
        exact hback.isInfix
      · refine absurd (List.reverse_prefix.mpr hfront) (h.2 _ ?_ (by simpa using hnil))
        rw [List.mem_tails, List.reverse_append]
        exact List.suffix_append _ _
  · exact fun hin => hin.trans (List.suffix_append a xs).isInfix

/-- Before `b`, an occurrence lies in what comes first. -/
theorem Opens.append (h : Opens part b) (xs : List α) : part <:+: xs ++ b ↔ part <:+: xs := by
  constructor
  · intro hin
    rcases List.infix_append_iff.mp hin with hin | hin | ⟨front, back, rfl, hfront, hback⟩
    · exact hin
    · exact absurd hin h.1
    · by_cases hnil : back = []
      · subst hnil
        rw [List.append_nil]
        exact hfront.isInfix
      · exact absurd hback (h.2 back ((List.mem_tails _ _).mpr (List.suffix_append _ _)) hnil)
  · exact fun hin => hin.trans (List.prefix_append xs b).isInfix

/-- Letters that the part does not have end every occurrence. -/
theorem closes_append (ha : Closes part a) (hne : xs ≠ []) (apart : ∀ x ∈ xs, x ∉ part)
    (nonempty : part ≠ []) : Closes part (a ++ xs) := by
  constructor
  · rw [ha.append]
    intro hin
    obtain ⟨x, hx⟩ := List.exists_mem_of_ne_nil part nonempty
    exact apart x (hin.subset hx) hx
  · intro t ht htne hprefix
    obtain ⟨x, t, rfl⟩ := List.exists_cons_of_ne_nil htne
    obtain ⟨y, ys, hys⟩ := List.exists_cons_of_ne_nil (mt List.reverse_eq_nil_iff.mp hne)
    rw [List.reverse_append, hys, List.cons_append, List.cons_prefix_cons] at hprefix
    have hpart : x ∈ part :=
      List.mem_reverse.mp (((List.mem_tails _ _).mp ht).subset List.mem_cons_self)
    refine apart x (List.mem_reverse.mp ?_) hpart
    rw [hys, hprefix.1]
    exact List.mem_cons_self

/-- No occurrence begins among letters that are not the part's first. -/
theorem append_of_head_not_mem {x : α} (h : x ∉ a) (xs : List α) :
    x :: part <:+: a ++ xs ↔ x :: part <:+: xs := by
  induction a with
  | nil => rfl
  | cons y a ih =>
    obtain ⟨hne, hmem⟩ := not_or.mp (fun hor => h (List.mem_cons.mpr hor))
    rw [List.cons_append, List.infix_cons_iff, ih hmem]
    refine ⟨fun hin => hin.resolve_left fun hprefix => ?_, .inr⟩
    exact hne (List.cons_prefix_cons.mp hprefix).1

/-- Dropping letters that the part does not begin with loses no occurrence. -/
theorem dropWhile_iff {p : α → Bool} {x : α} (h : p x = false) (xs : List α) :
    x :: part <:+: xs.dropWhile p ↔ x :: part <:+: xs := by
  conv_rhs => rw [← List.takeWhile_append_dropWhile (p := p) (l := xs)]
  refine (append_of_head_not_mem (fun hmem => ?_) _).symm
  exact Bool.false_ne_true (h.symm.trans (List.mem_takeWhile_imp hmem))

end Infix
