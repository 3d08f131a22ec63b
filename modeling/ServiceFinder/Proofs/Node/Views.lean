/-
  ServiceFinder/Proofs/Node/Views.lean
  ====================================
  **The views of a node after each change.**

  Every change of a node is built from a few small ones.  This file says what each
  of them does to the views, so that nothing below has to look into the list that
  the directory keeps them in.  A view that was never made reads as the default one:
  nobody is in its line and its list is empty, which is why most facts need no bound
  on its number.
-/
import ServiceFinder.Node.Run

namespace ServiceFinder

/-- The view that a happening is about: one that was made, refreshed, changed or
    whose revision was forgotten. -/
def Happening.view? : Happening → Option EntryId
  | .created e | .fetchBegan _ e _ | .refreshed _ e _ _ _ _ | .changed _ e _ _ | .forgot e =>
    some e
  | _ => none

namespace Directory

/-! ### Views of a directory -/

theorem entry_of_length_le {d : Directory} {e : EntryId} (h : d.entries.length ≤ e) :
    d.entry e = default := by
  simp [entry, List.getElem?_eq_none h]

theorem lt_length_of_ne_default {d : Directory} {e : EntryId} (h : d.entry e ≠ default) :
    e < d.entries.length :=
  Nat.lt_of_not_le fun hle => h (entry_of_length_le hle)

@[simp] theorem length_modify (d : Directory) (e : EntryId) (f : Entry → Entry) :
    (d.modify e f).entries.length = d.entries.length := by
  simp [modify]

theorem entry_modify (d : Directory) (e e' : EntryId) (f : Entry → Entry) :
    (d.modify e f).entry e' =
      if e' = e ∧ e < d.entries.length then f (d.entry e) else d.entry e' := by
  simp only [modify, entry, List.getElem?_modify]
  by_cases h : e' = e
  · subst h
    by_cases hlt : e' < d.entries.length
    · simp [hlt]
    · simp [hlt]
  · have h' : ¬ e = e' := fun heq => h heq.symm
    simp [h, h']

@[simp] theorem length_create (d : Directory) (key : ServiceKey) :
    (d.create key).entries.length = d.entries.length + 1 := by
  simp [create]

theorem entry_create (d : Directory) (key : ServiceKey) (e : EntryId) :
    (d.create key).entry e =
      if e = d.entries.length then { key, protection := d.protection } else d.entry e := by
  simp only [create, entry]
  rcases Nat.lt_trichotomy e d.entries.length with h | h | h
  · simp [List.getElem?_append_left h, Nat.ne_of_lt h]
  · simp [h]
  · have hlen : (d.entries ++ [({ key, protection := d.protection } : Entry)]).length ≤ e := by
      simpa using Nat.succ_le_of_lt h
    rw [List.getElem?_eq_none hlen, List.getElem?_eq_none (Nat.le_of_lt h),
      if_neg (Nat.ne_of_gt h)]

/-! ### Switching the protection of every cached view -/

theorem entry_foldl_protect (on : Bool) (views : List EntryId) (d : Directory) (e : EntryId) :
    (views.foldl (fun d v => d.modify v ({ · with protection := on })) d).entry e =
      if e ∈ views ∧ e < d.entries.length then { d.entry e with protection := on }
      else d.entry e := by
  induction views generalizing d with
  | nil => simp
  | cons v views ih =>
    rw [List.foldl_cons, ih, length_modify, entry_modify]
    by_cases hv : e = v
    · subst hv
      by_cases hlt : e < d.entries.length <;> simp [hlt]
    · simp [hv]

theorem foldl_protect_rest (on : Bool) (views : List EntryId) (d : Directory) :
    let d' := views.foldl (fun d v => d.modify v ({ · with protection := on })) d
    d'.entries.length = d.entries.length ∧ d'.cached = d.cached ∧ d'.options = d.options ∧
      d'.sweepers = d.sweepers ∧ d'.protection = d.protection := by
  induction views generalizing d with
  | nil => simp
  | cons v views ih =>
    obtain ⟨h₁, h₂, h₃, h₄, h₅⟩ := ih (d.modify v ({ · with protection := on }))
    exact ⟨h₁.trans (length_modify ..), h₂, h₃, h₄, h₅⟩

theorem entry_protect (d : Directory) (on : Bool) (e : EntryId) :
    (d.protect on).entry e =
      if e ∈ d.views ∧ e < d.entries.length then { d.entry e with protection := on }
      else d.entry e :=
  entry_foldl_protect on d.views { d with protection := on } e

@[simp] theorem length_protect (d : Directory) (on : Bool) :
    (d.protect on).entries.length = d.entries.length :=
  (foldl_protect_rest on d.views { d with protection := on }).1

@[simp] theorem cached_protect (d : Directory) (on : Bool) :
    (d.protect on).cached = d.cached :=
  (foldl_protect_rest on d.views { d with protection := on }).2.1

@[simp] theorem options_protect (d : Directory) (on : Bool) :
    (d.protect on).options = d.options :=
  (foldl_protect_rest on d.views { d with protection := on }).2.2.1

@[simp] theorem protection_protect (d : Directory) (on : Bool) :
    (d.protect on).protection = on :=
  (foldl_protect_rest on d.views { d with protection := on }).2.2.2.2

/-- Whatever does not look at the protection is left alone. -/
theorem entry_protect_congr {α : Type} (get : Entry → α)
    (hget : ∀ x on, get { x with protection := on } = get x) (d : Directory) (on : Bool)
    (e : EntryId) : get ((d.protect on).entry e) = get (d.entry e) := by
  rw [entry_protect]
  split
  · exact hget _ _
  · rfl

end Directory

namespace Node

variable {σ : Type}

/-! ### Views of a node -/

theorem entry_modifyEntry (n : Node σ) (e e' : EntryId) (f : Entry → Entry) :
    (n.modifyEntry e f).entry e' =
      if e' = e ∧ e < n.directory.entries.length then f (n.entry e) else n.entry e' :=
  n.directory.entry_modify e e' f

theorem entry_modifyEntry_self {n : Node σ} {e : EntryId} (f : Entry → Entry)
    (h : e < n.directory.entries.length) : (n.modifyEntry e f).entry e = f (n.entry e) := by
  rw [entry_modifyEntry, if_pos ⟨rfl, h⟩]

theorem entry_modifyEntry_of_ne {n : Node σ} {e e' : EntryId} (f : Entry → Entry)
    (h : e' ≠ e) : (n.modifyEntry e f).entry e' = n.entry e' := by
  rw [entry_modifyEntry, if_neg fun hc => h hc.1]

/-- What a change of one view does not touch stays as it is, in all views. -/
theorem entry_modifyEntry_congr {α : Type} (get : Entry → α) {f : Entry → Entry}
    (n : Node σ) (e e' : EntryId) (hf : get (f (n.entry e)) = get (n.entry e)) :
    get ((n.modifyEntry e f).entry e') = get (n.entry e') := by
  rw [entry_modifyEntry]
  split
  · rename_i h; rw [hf, h.1]
  · rfl

@[simp] theorem length_modifyEntry (n : Node σ) (e : EntryId) (f : Entry → Entry) :
    (n.modifyEntry e f).directory.entries.length = n.directory.entries.length :=
  n.directory.length_modify e f

theorem lt_length_of_writes {n : Node σ} {c : CallId} {e : EntryId}
    (h : (n.entry e).writers.head? = some c) : e < n.directory.entries.length :=
  Directory.lt_length_of_ne_default fun hd => by
    have : (n.entry e).writers = [] := by rw [entry, hd]; rfl
    simp [this] at h

theorem lt_length_of_gone {n : Node σ} {e : EntryId}
    (h : (n.entry e).status = .serviceNotFound) : e < n.directory.entries.length := by
  apply Directory.lt_length_of_ne_default
  intro hd
  rw [entry, hd] at h
  cases h

/-! ### What leaves all views alone -/

/-- What a journal gains in two steps has in common what it gains in either. -/
theorem added_trans {P : JournalLine → Prop} {before between after : List JournalLine}
    (h : ∃ lines, between = lines ++ before ∧ ∀ l ∈ lines, P l)
    (h' : ∃ lines, after = lines ++ between ∧ ∀ l ∈ lines, P l) :
    ∃ lines, after = lines ++ before ∧ ∀ l ∈ lines, P l := by
  obtain ⟨earlier, rfl, hearlier⟩ := h
  obtain ⟨later, rfl, hlater⟩ := h'
  refine ⟨later ++ earlier, (List.append_assoc ..).symm, ?_⟩
  intro l hl
  rcases List.mem_append.mp hl with hl | hl
  · exact hlater l hl
  · exact hearlier l hl

/-- `m` has the views, the calls and the answers of `n`, and its journal has gained
    nothing about a view. -/
structure Still (n m : Node σ) : Prop where
  entries : m.directory.entries = n.directory.entries
  options : m.directory.options = n.directory.options
  calls : m.calls = n.calls
  nextCall : m.nextCall = n.nextCall
  replies : m.replies = n.replies
  time : m.time = n.time
  journal : ∃ lines, m.journal = lines ++ n.journal ∧
    ∀ l ∈ lines, l.time = n.time ∧ l.what.view? = none

theorem Still.refl (n : Node σ) : n.Still n :=
  ⟨rfl, rfl, rfl, rfl, rfl, rfl, [], rfl, by simp⟩

theorem Still.trans {n m k : Node σ} (h : n.Still m) (h' : m.Still k) : n.Still k where
  entries := h'.entries.trans h.entries
  options := h'.options.trans h.options
  calls := h'.calls.trans h.calls
  nextCall := h'.nextCall.trans h.nextCall
  replies := h'.replies.trans h.replies
  time := h'.time.trans h.time
  journal := added_trans h.journal (h.time ▸ h'.journal)

theorem Still.entry {n m : Node σ} (h : n.Still m) (e : EntryId) : m.entry e = n.entry e := by
  simp only [Node.entry, Directory.entry, h.entries]

theorem Still.journal_suffix {n m : Node σ} (h : n.Still m) : n.journal <:+ m.journal := by
  obtain ⟨lines, hj, -⟩ := h.journal
  exact ⟨lines, hj.symm⟩

theorem still_note (n : Node σ) (what : Happening) (h : what.view? = none) :
    n.Still (n.note what) :=
  ⟨rfl, rfl, rfl, rfl, rfl, rfl, [⟨n.time, what⟩], rfl, by simp [h]⟩

theorem still_evict (n : Node σ) (e : EntryId) : n.Still (n.evict e) := by
  unfold evict
  split
  · exact ⟨rfl, rfl, rfl, rfl, rfl, rfl, [⟨n.time, .evicted e⟩], rfl, by simp [Happening.view?]⟩
  · exact .refl n

theorem still_evictIfGone (n : Node σ) (e : EntryId) : n.Still (n.evictIfGone e) := by
  unfold evictIfGone
  split
  · exact n.still_evict e
  · exact .refl n

theorem still_evictAll (n : Node σ) (views : List EntryId) :
    n.Still (views.foldl evictIfGone n) := by
  induction views generalizing n with
  | nil => exact .refl n
  | cons v views ih => exact (n.still_evictIfGone v).trans (ih _)

theorem still_notify (n : Node σ) (c : CallId) (changed : List EntryId) :
    n.Still (n.notify c changed) := by
  have told (w : Watcher) :
      n.Still (n.note (.notified c w (changed.map fun e => (e, n.entry e)))) :=
    n.still_note _ rfl
  unfold notify
  cases changed with
  | nil => exact .refl n
  | cons e rest =>
    cases n.watcher with
    | none => exact .refl n
    | some w =>
      cases w with
      | named name => exact told _
      | balancer =>
        exact (told .balancer).trans ⟨rfl, rfl, rfl, rfl, rfl, rfl, [], rfl, by simp⟩

theorem still_publish (n : Node σ) (c : CallId) (changed : List EntryId) :
    n.Still (n.publish c changed) :=
  (n.still_evictAll changed).trans (still_notify _ c changed)

end Node

end ServiceFinder
