/-
  ServiceFinder/Proofs/Node/Asking.lean
  =====================================
  **A call asks the registry at most once, and answers what came of it.**

  No call returns from what follows a lookup to what comes before one, so a call that has
  asked may not ask again (`Asked`).  That makes the lines of a journal that name a call
  its own: what they tell can not have happened to another refresh.  A refresh that was
  asked for answers with the status that the journal tells (`Answered`).
-/
import ServiceFinder.Proofs.Node.History

namespace ServiceFinder

variable {σ : Type}

/-! ### Calls that may still ask -/

def Stage.mayAsk : Stage σ → Bool
  | .fetching .. => false
  | _ => true

def Point.mayAsk : Point σ → Bool
  | .heard .. | .refreshed .. | .passed .. | .closing .. | .replying _ => false
  | _ => true

/-- The call `c` may still ask the registry: it has not come so far, or is still to come. -/
def Midturn.May (s : Midturn σ) (c : CallId) : Prop :=
  (∃ st, (c, st) ∈ s.node.calls ∧ st.mayAsk = true) ∨
    (∃ p, s.running = some (c, p) ∧ p.mayAsk = true) ∨ s.node.nextCall ≤ c

theorem Stage.mayAsk_of_point {st : Stage σ} (h : st.point.mayAsk = true) : st.mayAsk = true := by
  cases st with
  | fetching => cases h
  | _ => rfl

theorem Quiet.mayAsk {c : CallId} {n n' : Node σ} {p p' : Point σ} (h : Quiet c n p n' p')
    (hp' : p'.mayAsk = true) : p.mayAsk = true := by
  cases h with
  | turn h =>
    unfold Node.turnsTo at h
    split at h
    all_goals first
      | rfl
      | (cases h; cases hp')
      | cases h
  | _ => first | rfl | cases hp'

namespace Midturn

variable {s s' : Midturn σ} {c : CallId}

theorem May.of_rest {n n' : Node σ} {c' : CallId} {p : Point σ} {st : Stage σ}
    {k k' : Option (CallId × Bool × List EntryId)} (h : May ⟨n'.rest c' st, none, k'⟩ c)
    (hcalls : n'.calls = n.calls) (hnext : n'.nextCall = n.nextCall) (hp : p.mayAsk = true) :
    May ⟨n, some (c', p), k⟩ c := by
  rcases h with ⟨st', hc, hst⟩ | ⟨p', hrun, -⟩ | hle
  · rcases Node.mem_rest.mp hc with hc | ⟨rfl, -⟩
    · exact .inl ⟨st', hcalls ▸ hc, hst⟩
    · exact .inr (.inl ⟨p, rfl, hp⟩)
  · cases hrun
  · exact .inr (.inr (hnext ▸ hle))

theorem May.of_run {n n' : Node σ} {c' : CallId} {p p' : Point σ}
    {k k' : Option (CallId × Bool × List EntryId)} (h : May ⟨n', some (c', p'), k'⟩ c)
    (hcalls : ∀ x ∈ n'.calls, x ∈ n.calls) (hnext : n.nextCall ≤ n'.nextCall)
    (hp : p'.mayAsk = true → p.mayAsk = true) : May ⟨n, some (c', p), k⟩ c := by
  rcases h with ⟨st', hc, hst⟩ | ⟨p', hrun, hmay⟩ | hle
  · exact .inl ⟨st', hcalls _ hc, hst⟩
  · cases hrun
    exact .inr (.inl ⟨p, rfl, hp hmay⟩)
  · exact .inr (.inr (Nat.le_trans hnext hle))

theorem May.of_end {n n' : Node σ} {r : Option (CallId × Point σ)}
    {k k' : Option (CallId × Bool × List EntryId)} (h : May ⟨n', none, k'⟩ c)
    (hcalls : n'.calls = n.calls) (hnext : n'.nextCall = n.nextCall) : May ⟨n, r, k⟩ c := by
  rcases h with ⟨st', hc, hst⟩ | ⟨p', hrun, -⟩ | hle
  · exact .inl ⟨st', hcalls ▸ hc, hst⟩
  · cases hrun
  · exact .inr (.inr (hnext ▸ hle))

end Midturn

/-- **Who may ask after a move could ask before it.** -/
theorem Move.may [Registry σ] {s s' : Midturn σ} (m : Move s s') {c : CallId}
    (h : s'.May c) : s.May c := by
  cases m with
  | call n op =>
    rcases h with ⟨st, hc, hst⟩ | ⟨p, hrun, -⟩ | hle
    · exact .inl ⟨st, hc, hst⟩
    · cases hrun
      exact .inr (.inr (Nat.le_refl _))
    · exact .inr (.inr (Nat.le_of_succ_le hle))
  | callAfter n wait op =>
    rcases h with ⟨st, hc, hst⟩ | ⟨p, hrun, -⟩ | hle
    · rcases Node.mem_rest.mp hc with hc | ⟨rfl, -⟩
      · exact .inl ⟨st, hc, hst⟩
      · exact .inr (.inr (Nat.le_refl _))
    · cases hrun
    · exact .inr (.inr (Nat.le_of_succ_le hle))
  | @wake n c' st rests awake =>
    rcases h with ⟨st', hc, hst⟩ | ⟨p, hrun, hmay⟩ | hle
    · exact .inl ⟨st', (Node.mem_unrest.mp hc).1, hst⟩
    · cases hrun
      exact .inl ⟨st, Node.mem_of_stage? rests, Stage.mayAsk_of_point hmay⟩
    · exact .inr (.inr hle)
  | quiet q =>
    exact h.of_run (fun x hx => q.still.calls ▸ hx) (Nat.le_of_eq q.still.nextCall.symm) q.mayAsk
  | answer | stray => exact h.of_end rfl rfl
  | enlisted => exact h.of_end rfl rfl
  | protect | protectView | forget | create | beginFirst | endFirst | hear | apply | applyNext =>
    exact h.of_run (fun _ hx => hx) (Nat.le_refl _) (by first | exact fun _ => rfl | nofun)
  | lock hfree => exact h.of_run (fun _ hx => hx) (Nat.le_refl _) fun _ => rfl
  | askNow hwait => exact h.of_run (fun _ hx => hx) (Nat.le_refl _) fun _ => rfl
  | sleep | awaitFirst | wait | ask | forceWait | sweepSome => exact h.of_rest rfl rfl rfl
  | stopPuller n c' k =>
    exact h.of_run (fun _ hx => List.mem_of_mem_filter hx) (Nat.le_refl _) fun _ => rfl
  | startPuller n c' k interval =>
    have hnext : (n.startPuller interval).nextCall = n.nextCall + 1 := by rw [n.startPuller_eq]
    rcases h with ⟨st, hc, hst⟩ | ⟨p, hrun, -⟩ | hle
    · rcases Node.mem_startPuller.mp hc with hc | ⟨-, rfl, -⟩
      · exact .inl ⟨st, (Node.mem_stopPuller.mp hc).1, hst⟩
      · exact .inr (.inr (Nat.le_refl _))
    · cases hrun
      exact .inr (.inl ⟨_, rfl, rfl⟩)
    · exact .inr (.inr (Nat.le_of_succ_le (Nat.le_trans (Nat.le_of_eq hnext.symm) hle)))
  | tick n c' k due interval =>
    rcases h with ⟨st, hc, hst⟩ | ⟨p, hrun, -⟩ | hle
    · rcases Node.mem_rest.mp hc with hc | ⟨rfl, -⟩
      · rcases Node.mem_rest.mp hc with hc | ⟨rfl, -⟩
        · exact .inl ⟨st, hc, hst⟩
        · exact .inr (.inl ⟨_, rfl, rfl⟩)
      · exact .inr (.inr (Nat.le_refl _))
    · cases hrun
    · exact .inr (.inr (Nat.le_of_succ_le hle))
  | enlist n sweep forced e rest =>
    rcases h with ⟨st, hc, hst⟩ | ⟨p, hrun, -⟩ | hle
    · exact .inl ⟨st, hc, hst⟩
    · cases hrun
      exact .inr (.inr (Nat.le_refl _))
    · exact .inr (.inr (Nat.le_of_succ_le hle))
  | @member n c' k e status sweep forced members rests hmore =>
    rcases h with ⟨st, hc, hst⟩ | ⟨p, hrun, -⟩ | hle
    · rcases Node.mem_rest.mp hc with hc | ⟨rfl, -⟩
      · exact .inl ⟨st, (Node.mem_unrest.mp hc).1, hst⟩
      · exact .inl ⟨_, Node.mem_of_stage? rests, rfl⟩
    · cases hrun
    · exact .inr (.inr hle)
  | @lastMember n c' k e status sweep forced members rests hall =>
    rcases h with ⟨st, hc, hst⟩ | ⟨p, hrun, hmay⟩ | hle
    · exact .inl ⟨st, (Node.mem_unrest.mp hc).1, hst⟩
    · cases hrun
      cases hmay
    · exact .inr (.inr hle)

/-! ### Calls that have asked -/

/-- The call whose lookup a happening begins. -/
def Happening.asker? : Happening → Option CallId
  | .fetchBegan c _ _ => some c
  | _ => none

def askers (journal : List JournalLine) : List CallId := journal.filterMap (·.what.asker?)

theorem askers_append {lines before : List JournalLine} (h : ∀ l ∈ lines, l.what.view? = none) :
    askers (lines ++ before) = askers before := by
  have hnone : lines.filterMap (·.what.asker?) = [] := by
    refine List.filterMap_eq_nil_iff.mpr ?_
    intro l hl
    have hv := h l hl
    rcases l with ⟨time, what⟩
    cases what with
    | fetchBegan => cases hv
    | _ => rfl
  rw [askers, List.filterMap_append, hnone, List.nil_append]
  rfl

/-- No call has asked twice, and none that has asked may ask again. -/
structure Asked (s : Midturn σ) : Prop where
  nodup : (askers s.node.journal).Nodup
  silent : ∀ c ∈ askers s.node.journal, ¬ s.May c

namespace Asked

variable {s s' : Midturn σ}

theorem of_same (h : Asked s) (hj : askers s'.node.journal = askers s.node.journal)
    (hmay : ∀ {c}, s'.May c → s.May c) : Asked s' :=
  ⟨hj ▸ h.nodup, fun c hc hc' => h.silent c (hj ▸ hc) (hmay hc')⟩

theorem ask (h : Asked s) {c : CallId} (hc : s.May c)
    (hj : askers s'.node.journal = c :: askers s.node.journal) (hover : ¬ s'.May c)
    (hmay : ∀ {c}, s'.May c → s.May c) : Asked s' where
  nodup := hj ▸ List.nodup_cons.mpr ⟨fun hmem => h.silent c hmem hc, h.nodup⟩
  silent c' hc' := by
    rw [hj] at hc'
    rcases List.mem_cons.mp hc' with rfl | hc'
    · exact hover
    · exact fun hmem => h.silent c' hc' (hmay hmem)

theorem move [Registry σ] (h : Asked s) (ho : Orderly s) (m : Move s s') : Asked s' := by
  have ho' := ho.move m
  rcases m.apart_or_touch ho with ha | ht
  · obtain ⟨lines, hj, hl⟩ := ha.journal
    exact h.of_same (by rw [hj, askers_append hl]) m.may
  · cases ht with
    | wake | forget | create | beginFirst | endFirst | lock | wait | hear | apply =>
      exact h.of_same rfl m.may
    | @askNow n c k e next hwait =>
      refine h.ask (.inr (.inl ⟨_, rfl, rfl⟩)) rfl ?_ m.may
      rintro (⟨st, hc, -⟩ | ⟨p, hrun, hp⟩ | hle)
      · exact ho'.notMem_calls rfl st hc
      · cases hrun
        cases hp
      · exact Nat.not_lt.mpr hle (ho'.below c List.mem_cons_self)
    | @ask n c k e next hwait =>
      refine h.ask (.inr (.inl ⟨_, rfl, rfl⟩)) rfl ?_ m.may
      rintro (⟨st, hc, hst⟩ | ⟨p, hrun, -⟩ | hle)
      · rw [ho'.stage_unique hc (Node.mem_rest_self ..)] at hst
        cases hst
      · cases hrun
      · exact Nat.not_lt.mpr hle (ho'.lt_nextCall (Node.mem_rest_self ..))

end Asked

/-! ### Answers to whoever asked for a refresh -/

/-- Who asked for a refresh that is over has its status, or is about to get it. -/
def Answered (s : Midturn σ) : Prop :=
  ∀ l ∈ s.node.journal, ∀ c e o status guarded,
    l.what = .refreshed c e .status o status guarded →
    ⟨c, l.time, .status status⟩ ∈ s.node.replies ∨
      l.time = s.node.time ∧ (s.running = some (c, .refreshed e status .status) ∨
        s.running = some (c, .replying (.status status)))

theorem Move.of_refreshed [Registry σ] {n : Node σ} {c : CallId} {e : EntryId}
    {status : CacheStatus} {k : Option (CallId × Bool × List EntryId)} {s' : Midturn σ}
    (m : Move ⟨n, some (c, .refreshed e status .status), k⟩ s') :
    s' = ⟨n, some (c, .replying (.status status)), k⟩ := by
  cases m with
  | quiet q =>
    cases q with
    | turn h =>
      cases h
      rfl

theorem Move.of_replying [Registry σ] {n : Node σ} {c : CallId} {r : Reply}
    {k : Option (CallId × Bool × List EntryId)} {s' : Midturn σ}
    (m : Move ⟨n, some (c, .replying r), k⟩ s') : s' = ⟨n.answer c r, none, k⟩ := by
  cases m with
  | quiet q =>
    cases q with
    | turn h => cases h
  | answer => rfl

/-- The end of a refresh is told by whoever takes in the answer. -/
theorem Move.refreshed_new [Registry σ] {s s' : Midturn σ} (m : Move s s') (ho : Orderly s)
    {l : JournalLine} (hl : l ∈ s'.node.journal) {c : CallId} {e : EntryId}
    {next : AfterRefresh} {o : Outcome} {status : CacheStatus} {guarded : Bool}
    (hwhat : l.what = .refreshed c e next o status guarded) :
    l ∈ s.node.journal ∨
      l.time = s'.node.time ∧ s'.running = some (c, .refreshed e status next) := by
  rcases m.apart_or_touch ho with ha | ht
  · obtain ⟨lines, hj, hlines⟩ := ha.journal
    rw [hj] at hl
    rcases List.mem_append.mp hl with hl | hl
    · have hv := hlines l hl
      rw [hwhat] at hv
      cases hv
    · exact .inl hl
  · cases ht with
    | wake | beginFirst | endFirst | lock | wait => exact .inl hl
    | forget | create | askNow | ask | apply =>
      rcases List.mem_cons.mp hl with rfl | hl
      · cases hwhat
      · exact .inl hl
    | hear =>
      rcases List.mem_cons.mp hl with rfl | hl
      · cases hwhat
        exact .inr ⟨rfl, rfl⟩
      · exact .inl hl

theorem Answered.move [Registry σ] {s s' : Midturn σ} (h : Answered s) (ho : Orderly s)
    (m : Move s s') : Answered s' := by
  intro l hl c e o status guarded hwhat
  rcases m.refreshed_new ho hl hwhat with hold | ⟨htime, hrun⟩
  · rcases h l hold c e o status guarded hwhat with hreply | ⟨htime, hrun | hrun⟩
    · exact .inl (m.replies_subset hreply)
    · rcases s with ⟨n, r, k⟩
      cases hrun
      rw [m.of_refreshed]
      exact .inr ⟨htime, .inr rfl⟩
    · rcases s with ⟨n, r, k⟩
      cases hrun
      rw [m.of_replying]
      exact .inl (List.mem_cons.mpr (.inl (by rw [htime])))
  · exact .inr ⟨htime, .inl hrun⟩

/-! ### On every course -/

theorem Node.Course.asked [Registry σ] {start n : Node σ} (untouched : start.Untouched)
    (course : Course start n) :
    Asked (⟨n, none, none⟩ : Midturn σ) ∧ Answered (⟨n, none, none⟩ : Midturn σ) := by
  refine (course.keeps_of_sound (I := fun s => Asked s ∧ Answered s) (.of_untouched untouched)
    (fun hs h m => ⟨h.1.move hs.orderly m, h.2.move hs.orderly m⟩) (fun _ h => ⟨?_, ?_⟩)
    ⟨?_, ?_⟩).2
  · exact ⟨h.1.nodup, h.1.silent⟩
  · -- nobody runs while time passes, so every answer has been given
    intro l hl c e o status guarded hwhat
    rcases h.2 l hl c e o status guarded hwhat with hreply | ⟨-, hrun | hrun⟩
    · exact .inl hreply
    · cases hrun
    · cases hrun
  · exact ⟨by simp [untouched.journal, askers], by simp [untouched.journal, askers]⟩
  · intro l hl
    simp [untouched.journal] at hl

/-- No course takes back what the journal tells. -/
theorem Node.Course.journal_suffix [Registry σ] {n m : Node σ}
    (sound : Sound (⟨n, none, none⟩ : Midturn σ)) (course : Course n m) :
    n.journal <:+ m.journal :=
  (course.keeps_of_sound (I := fun s => n.journal <:+ s.node.journal) sound
    (fun hs h m => h.trans (m.journal_suffix hs.orderly)) (fun _ h => h) (List.suffix_refl _)).2

end ServiceFinder
