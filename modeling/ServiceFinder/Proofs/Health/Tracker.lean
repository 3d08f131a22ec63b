/-
  ServiceFinder/Proofs/Health/Tracker.lean
  ========================================
  **The statistics of one server apart from all others.**

  The tracker keeps numbered records and says which one is current for which server.  As no
  two servers share a record (`Apart`), the tracker can be read as a table from servers to
  statistics: `get?` is that reading, and there is one equation here for what each operation
  does to it.
-/
import ServiceFinder.Health.Tracker
import ServiceFinder.Proofs.Keyed

namespace ServiceFinder

namespace Tracker

/-- Every current record was made, and no two servers have the same one. -/
structure Apart (t : Tracker) : Prop where
  made : ∀ {a r}, t.recordOf? a = some r → r < t.records.length
  own : ∀ {a b r}, t.recordOf? a = some r → t.recordOf? b = some r → a = b

theorem apart_empty : Apart {} where
  made h := by cases h
  own h := by cases h

variable {t : Tracker} {now width : Millis} {success : Bool} {a b : String}

theorem get?_eq_none (h : t.recordOf? a = none) : t.get? a = none := by
  rw [get?, h, Option.bind_none]

theorem get?_of_recordOf? {r : RecordId} (h : t.recordOf? a = some r) :
    t.get? a = t.records[r]? := by
  rw [get?, h, Option.bind_some, record?]

theorem Apart.exists_get? (h : t.Apart) {r : RecordId} (hr : t.recordOf? a = some r) :
    ∃ s, t.get? a = some s := by
  rw [get?_of_recordOf? hr]
  exact ⟨_, List.getElem?_eq_getElem (h.made hr)⟩

/-! ### Observing -/

theorem recordOf?_observe (now : Millis) (a b : String) (t : Tracker) :
    (t.observe now a).2.recordOf? b =
      if b = a then some (t.observe now a).1 else t.recordOf? b := by
  unfold observe
  cases ha : t.recordOf? a with
  | some r =>
    by_cases hb : b = a
    · rw [hb, if_pos rfl]
      exact ha
    · rw [if_neg hb]
  | none =>
    have happend : (t.current ++ [(a, t.records.length)]).lookup b =
        (t.recordOf? b).or (if b == a then some t.records.length else none) := by
      rw [List.lookup_append, List.lookup_cons]
      cases b == a <;> rfl
    refine happend.trans ?_
    by_cases hb : b = a
    · rw [hb, ha, if_pos rfl, Option.none_or, if_pos (beq_self_eq_true a)]
    · rw [if_neg hb, if_neg (by simpa using hb), Option.or_none]

theorem records_observe (now : Millis) (a : String) (t : Tracker) :
    (t.recordOf? a = some (t.observe now a).1 ∧ (t.observe now a).2 = t) ∨
      t.recordOf? a = none ∧ (t.observe now a).1 = t.records.length ∧
        (t.observe now a).2.records = t.records ++ [.startingAt now] := by
  unfold observe
  cases ha : t.recordOf? a with
  | some r => exact .inl ⟨rfl, rfl⟩
  | none => exact .inr ⟨rfl, rfl, rfl⟩

theorem Apart.observe (h : t.Apart) (now : Millis) (a : String) :
    (t.observe now a).2.Apart := by
  rcases t.records_observe now a with ⟨-, heq⟩ | ⟨ha, hfst, hrecords⟩
  · rw [heq]
    exact h
  · have hlen : (t.observe now a).2.records.length = t.records.length + 1 := by
      rw [hrecords, List.length_append]
      rfl
    constructor
    · intro b r hr
      rw [recordOf?_observe, hfst] at hr
      rw [hlen]
      split at hr
      · cases hr
        exact Nat.lt_succ_self _
      · exact Nat.lt_succ_of_lt (h.made hr)
    · intro b c r hb hc
      rw [recordOf?_observe, hfst] at hb hc
      split at hb <;> split at hc
      · rename_i hb' hc'
        rw [hb', hc']
      · cases hb
        exact absurd (h.made hc) (Nat.lt_irrefl _)
      · cases hc
        exact absurd (h.made hb) (Nat.lt_irrefl _)
      · exact h.own hb hc

theorem Apart.get?_observe (h : t.Apart) (now : Millis) (a b : String) :
    (t.observe now a).2.get? b =
      if b = a then some ((t.get? a).getD (.startingAt now)) else t.get? b := by
  rcases t.records_observe now a with ⟨ha, heq⟩ | ⟨ha, hfst, hrecords⟩
  · rw [heq]
    split
    · rename_i hb
      obtain ⟨s, hs⟩ := h.exists_get? ha
      rw [hb, hs, Option.getD_some]
    · rfl
  · have hrecord := t.recordOf?_observe now a b
    rw [hfst] at hrecord
    split
    · rename_i hb
      rw [if_pos hb] at hrecord
      rw [get?_of_recordOf? hrecord, hrecords, get?_eq_none ha, Option.getD_none]
      exact List.getElem?_concat_length
    · rename_i hb
      rw [if_neg hb] at hrecord
      cases hr : t.recordOf? b with
      | none => rw [get?_eq_none hr, get?_eq_none (hrecord.trans hr)]
      | some r =>
        rw [get?_of_recordOf? hr, get?_of_recordOf? (hrecord.trans hr), hrecords]
        exact List.getElem?_append_left (h.made hr)

theorem Apart.statsFor_fst (h : t.Apart) (now : Millis) (a : String) :
    (t.statsFor now a).1 = (t.get? a).getD (.startingAt now) := by
  have hrecord := t.recordOf?_observe now a a
  rw [if_pos rfl] at hrecord
  have hget := h.get?_observe now a a
  rw [if_pos rfl, get?_of_recordOf? hrecord] at hget
  show ((t.observe now a).2.records[(t.observe now a).1]?).getD _ = _
  rw [hget, Option.getD_some]

/-! ### Recording outcomes and forgetting servers -/

theorem Apart.mark (h : t.Apart) (success : Bool) (width now : Millis) (a : String) :
    (t.mark success width now a).Apart where
  made hr := by
    show _ < ((t.observe now a).2.records.modify _ _).length
    rw [List.length_modify]
    exact (h.observe now a).made hr
  own hr hr' := (h.observe now a).own hr hr'

theorem Apart.get?_mark (h : t.Apart) (success : Bool) (width now : Millis) (a b : String) :
    (t.mark success width now a).get? b =
      if b = a then some (((t.get? a).getD (.startingAt now)).mark success width now)
      else t.get? b := by
  have hget := h.get?_observe now a b
  have hrecord (c : String) :
      (t.mark success width now a).recordOf? c = (t.observe now a).2.recordOf? c := rfl
  have hcurrent := t.recordOf?_observe now a a
  rw [if_pos rfl] at hcurrent
  cases hr : (t.observe now a).2.recordOf? b with
  | none =>
    have hb : b ≠ a := by
      rintro rfl
      rw [hcurrent] at hr
      cases hr
    rw [if_neg hb] at hget ⊢
    rw [get?_eq_none ((hrecord b).trans hr), ← hget, get?_eq_none hr]
  | some r =>
    have hmark : (t.mark success width now a).get? b =
        ((t.observe now a).2.records.modify (t.observe now a).1
          (·.mark success width now))[r]? := get?_of_recordOf? hr
    rw [hmark, List.getElem?_modify, ← get?_of_recordOf? hr, hget]
    by_cases hb : b = a
    · have hsame : (t.observe now a).1 = r := by
        rw [hb, hcurrent] at hr
        exact Option.some.inj hr
      simp only [if_pos hb, if_pos hsame]
      rfl
    · have hother : (t.observe now a).1 ≠ r := by
        rintro rfl
        exact hb ((h.observe now a).own hr hcurrent)
      simp only [if_neg hb, if_neg hother, id_map']

theorem recordOf?_retain (live : List String) (a : String) (t : Tracker) :
    (t.retain live).recordOf? a = if live.contains a then t.recordOf? a else none :=
  lookup_filter_fst live.contains t.current a

theorem Apart.retain (h : t.Apart) (live : List String) : (t.retain live).Apart where
  made hr := by
    rw [recordOf?_retain] at hr
    split at hr
    · exact h.made hr
    · cases hr
  own hr hr' := by
    rw [recordOf?_retain] at hr hr'
    split at hr <;> split at hr'
    · exact h.own hr hr'
    all_goals first | cases hr | cases hr'

theorem get?_retain (live : List String) (a : String) (t : Tracker) :
    (t.retain live).get? a = if live.contains a then t.get? a else none := by
  rw [get?, recordOf?_retain]
  split <;> rfl

end Tracker

end ServiceFinder
