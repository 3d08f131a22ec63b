/-
  ServiceFinder/Proofs/Keyed.lean
  ===============================
  **Looking keys up in a list.**

  Services, statistics and selections are all kept as lists of keyed items, of which a
  lookup finds the first.
-/

namespace ServiceFinder

/-- Dropping whole keys hides just those. -/
theorem lookup_filter_fst {α β : Type} [BEq α] [LawfulBEq α] (keep : α → Bool)
    (items : List (α × β)) (k : α) :
    (items.filter (keep ·.1)).lookup k = if keep k then items.lookup k else none := by
  induction items with
  | nil => simp
  | cons item items ih =>
    obtain ⟨k', v⟩ := item
    rw [List.filter_cons, List.lookup_cons]
    by_cases hk : k = k'
    · subst hk
      cases hkeep : keep k with
      | true => simp
      | false => simp [ih, hkeep]
    · have hne : (k == k') = false := beq_false_of_ne hk
      cases hkeep : keep k' with
      | true => simp [List.lookup_cons, hne, ih]
      | false => simp [hne, ih]

end ServiceFinder
