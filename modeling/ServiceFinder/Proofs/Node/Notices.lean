/-
  ServiceFinder/Proofs/Node/Notices.lean
  ======================================
  **What a journal says about changes and who was told.**

  A sweep or a pushed change goes through several views, and other calls write the journal
  in between.  What belongs to one of them is told apart by the number of the call: the
  `outcomesIn` it, one for each view, and the `noticesOf` it.  The two are to agree
  (`Reckoned`): nobody is told of nothing, and otherwise the watcher is told once, of exactly
  the views whose outcome counts as a change.
-/
import ServiceFinder.Proofs.Node.Views

namespace ServiceFinder

variable {σ : Type}

/-! ### What belongs to a call -/

/-- The call on whose account something happened.  A first refresh is on nobody's. -/
def Happening.charged? : Happening → Option CallId
  | .refreshed c _ .status _ _ _ => some c
  | .refreshed _ _ (.member sweep) _ _ _ => some sweep
  | .changed c _ _ _ | .notified c _ _ => some c
  | _ => none

/-- The status with which a refresh for the sweep `c`, or a change by `c`, left a view. -/
def Happening.outcomeIn? (c : CallId) : Happening → Option (EntryId × CacheStatus)
  | .refreshed _ e (.member sweep) _ status _ => if sweep = c then some (e, status) else none
  | .changed c' e _ (some status) => if c' = c then some (e, status) else none
  | _ => none

/-- The watcher that `c` told, and the views that it was told of. -/
def Happening.noticeOf? (c : CallId) : Happening → Option (Watcher × List EntryId)
  | .notified c' w told => if c' = c then some (w, told.map (·.1)) else none
  | _ => none

/-- How `c` left each view that it refreshed or changed, latest first. -/
def outcomesIn (c : CallId) (journal : List JournalLine) : List (EntryId × CacheStatus) :=
  journal.filterMap (·.what.outcomeIn? c)

/-- Whom `c` told, and of what. -/
def noticesOf (c : CallId) (journal : List JournalLine) : List (Watcher × List EntryId) :=
  journal.filterMap (·.what.noticeOf? c)

/-- What the watcher is to be told of these views. -/
def noticeFor (watcher? : Option Watcher) (views : List EntryId) :
    List (Watcher × List EntryId) :=
  if views = [] then [] else watcher?.toList.map (·, views)

/-- No view went through `c` twice, and the watcher was told at most once: of the views whose
    outcome was a change, of each once and of no other, and not at all if there was none. -/
structure Reckoned (c : CallId) (watcher? : Option Watcher) (journal : List JournalLine) :
    Prop where
  once : ((outcomesIn c journal).map (·.1)).Nodup
  told : ∃ views : List EntryId, views.Nodup ∧
    (∀ e, e ∈ views ↔ ∃ status, (e, status) ∈ outcomesIn c journal ∧ status.isChanged = true) ∧
      noticesOf c journal = noticeFor watcher? views

/-! ### Lines on the account of others -/

section Others

variable {c : CallId} {what : Happening} {lines before : List JournalLine}

theorem Happening.outcomeIn?_of_ne (h : what.charged? ≠ some c) : what.outcomeIn? c = none := by
  cases what with
  | refreshed c' e next o status guarded =>
    cases next with
    | member sweep => exact if_neg fun heq => h (congrArg some heq)
    | _ => rfl
  | changed c' e change verdict =>
    cases verdict with
    | none => rfl
    | some status => exact if_neg fun heq => h (congrArg some heq)
  | _ => rfl

theorem Happening.noticeOf?_of_ne (h : what.charged? ≠ some c) : what.noticeOf? c = none := by
  cases what with
  | notified c' w told => exact if_neg fun heq => h (congrArg some heq)
  | _ => rfl

theorem outcomesIn_eq_nil (h : ∀ l ∈ lines, l.what.charged? ≠ some c) : outcomesIn c lines = [] :=
  List.filterMap_eq_nil_iff.mpr fun l hl => Happening.outcomeIn?_of_ne (h l hl)

theorem noticesOf_eq_nil (h : ∀ l ∈ lines, l.what.charged? ≠ some c) : noticesOf c lines = [] :=
  List.filterMap_eq_nil_iff.mpr fun l hl => Happening.noticeOf?_of_ne (h l hl)

theorem outcomesIn_append (lines before : List JournalLine) :
    outcomesIn c (lines ++ before) = outcomesIn c lines ++ outcomesIn c before :=
  List.filterMap_append

theorem noticesOf_append (lines before : List JournalLine) :
    noticesOf c (lines ++ before) = noticesOf c lines ++ noticesOf c before :=
  List.filterMap_append

theorem Reckoned.append {watcher? : Option Watcher} (h : Reckoned c watcher? before)
    (hl : ∀ l ∈ lines, l.what.charged? ≠ some c) : Reckoned c watcher? (lines ++ before) := by
  have houtcomes : outcomesIn c (lines ++ before) = outcomesIn c before := by
    rw [outcomesIn_append, outcomesIn_eq_nil hl, List.nil_append]
  constructor
  · rw [houtcomes]
    exact h.once
  · rw [houtcomes, noticesOf_append, noticesOf_eq_nil hl, List.nil_append]
    exact h.told

/-- Who has done nothing has nothing to tell. -/
theorem Reckoned.of_nothing {watcher? : Option Watcher}
    (h : ∀ l ∈ before, l.what.charged? ≠ some c) : Reckoned c watcher? before := by
  have houtcomes := outcomesIn_eq_nil h
  constructor
  · rw [houtcomes]
    exact List.nodup_nil
  · refine ⟨[], List.nodup_nil, ?_, noticesOf_eq_nil h⟩
    simp [houtcomes]

end Others

/-! ### Publishing -/

namespace Node

theorem watcher_evictIfGone (n : Node σ) (e : EntryId) : (n.evictIfGone e).watcher = n.watcher := by
  unfold evictIfGone evict
  split
  · split <;> rfl
  · rfl

theorem watcher_evictAll (n : Node σ) (views : List EntryId) :
    (views.foldl evictIfGone n).watcher = n.watcher := by
  induction views generalizing n with
  | nil => rfl
  | cons e views ih => exact (ih _).trans (n.watcher_evictIfGone e)

theorem watcher_publish (n : Node σ) (c : CallId) (changed : List EntryId) :
    (n.publish c changed).watcher = n.watcher := by
  rw [← n.watcher_evictAll changed]
  unfold publish notify
  split
  · rfl
  · rfl
  · split <;> rfl

theorem uncharged_evictIfGone (n : Node σ) (e : EntryId) :
    ∃ lines, (n.evictIfGone e).journal = lines ++ n.journal ∧
      ∀ l ∈ lines, l.what.charged? = none := by
  unfold evictIfGone evict
  split
  · split
    · exact ⟨[⟨n.time, .evicted e⟩], rfl, by simp [Happening.charged?]⟩
    · exact ⟨[], rfl, by simp⟩
  · exact ⟨[], rfl, by simp⟩

theorem uncharged_evictAll (n : Node σ) (views : List EntryId) :
    ∃ lines, (views.foldl evictIfGone n).journal = lines ++ n.journal ∧
      ∀ l ∈ lines, l.what.charged? = none := by
  induction views generalizing n with
  | nil => exact ⟨[], rfl, by simp⟩
  | cons e views ih => exact added_trans (n.uncharged_evictIfGone e) (ih _)

/-- What telling the watcher adds to the journal. -/
theorem journal_notify (n : Node σ) (c : CallId) (changed : List EntryId) :
    ∃ lines, (n.notify c changed).journal = lines ++ n.journal ∧ outcomesIn c lines = [] ∧
      noticesOf c lines = noticeFor n.watcher changed ∧
        ∀ l ∈ lines, ∃ w told, l.what = .notified c w told := by
  unfold notify
  cases changed with
  | nil => exact ⟨[], rfl, rfl, rfl, by simp⟩
  | cons e rest =>
    cases hw : n.watcher with
    | none => exact ⟨[], rfl, rfl, rfl, by simp⟩
    | some w =>
      have hnotice :
          noticesOf c [⟨n.time, .notified c w ((e :: rest).map fun e => (e, n.entry e))⟩] =
            noticeFor (some w) (e :: rest) := by
        simp [noticesOf, Happening.noticeOf?, noticeFor, Function.comp_def]
      cases w with
      | named name => exact ⟨[_], rfl, rfl, hnotice, by simp⟩
      | balancer => exact ⟨[_], rfl, rfl, hnotice, by simp⟩

/-- What publishing adds to the journal, as far as it is on anyone's account. -/
theorem journal_publish (n : Node σ) (c : CallId) (changed : List EntryId) :
    ∃ lines, (n.publish c changed).journal = lines ++ n.journal ∧ outcomesIn c lines = [] ∧
      noticesOf c lines = noticeFor n.watcher changed ∧
        ∀ l ∈ lines, ∀ c', l.what.charged? = some c' →
          c' = c ∧ ∃ w told, l.what = .notified c w told := by
  obtain ⟨evictions, hevicted, huncharged⟩ := n.uncharged_evictAll changed
  obtain ⟨notices, htold, houtcomes, hnotices, hlines⟩ :=
    (changed.foldl evictIfGone n).journal_notify c changed
  rw [n.watcher_evictAll] at hnotices
  have hnone : ∀ l ∈ evictions, l.what.charged? ≠ some c := by
    intro l hl
    rw [huncharged l hl]
    nofun
  refine ⟨notices ++ evictions, ?_, ?_, ?_, ?_⟩
  · rw [List.append_assoc, ← hevicted]
    exact htold
  · rw [outcomesIn_append, houtcomes, outcomesIn_eq_nil hnone, List.append_nil]
  · rw [noticesOf_append, hnotices, noticesOf_eq_nil hnone, List.append_nil]
  · intro l hl c' hcharged
    rcases List.mem_append.mp hl with hl | hl
    · obtain ⟨w, told, hwhat⟩ := hlines l hl
      rw [hwhat] at hcharged
      cases hcharged
      exact ⟨rfl, w, told, hwhat⟩
    · rw [huncharged l hl] at hcharged
      cases hcharged

end Node

end ServiceFinder
