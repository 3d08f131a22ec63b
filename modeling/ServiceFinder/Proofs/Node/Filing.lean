/-
  ServiceFinder/Proofs/Node/Filing.lean
  =====================================
  **Which views are cached.**

  A view is cached under its own key from the moment it is made until it is evicted, and
  no two views are cached under one key.  What is cached can therefore be read off the
  journal: a view that was made for a key and never evicted is the one that a lookup of
  the key finds.
-/
import ServiceFinder.Proofs.Node.History

namespace ServiceFinder

variable {σ : Type}

/-- What is cached agrees with the views that were made and the journal. -/
structure Filed (n : Node σ) : Prop where
  /-- No key is cached twice. -/
  keys : (n.directory.cached.map (·.1)).Nodup
  /-- A cached view was made for its key and never evicted. -/
  made : ∀ {key e}, (key, e) ∈ n.directory.cached → e < n.directory.entries.length ∧
    (n.entry e).key = key ∧ ∀ l ∈ n.journal, l.what ≠ .evicted e
  /-- A view that was never evicted is cached. -/
  kept : ∀ {e}, e < n.directory.entries.length → (∀ l ∈ n.journal, l.what ≠ .evicted e) →
    ((n.entry e).key, e) ∈ n.directory.cached
  /-- Only views that were made have been evicted. -/
  evicted : ∀ {e}, ∀ l ∈ n.journal, l.what = .evicted e → e < n.directory.entries.length
  /-- The journal tells when each view was made. -/
  created : ∀ {e}, e < n.directory.entries.length → ∃ l ∈ n.journal, l.what = .created e

namespace Filed

variable {n n' : Node σ}

/-- The views are cached as before, and none is evicted. -/
theorem of_eq (h : Filed n) (hcached : n'.directory.cached = n.directory.cached)
    (hlen : n'.directory.entries.length = n.directory.entries.length)
    (hkeys : ∀ e, (n'.entry e).key = (n.entry e).key)
    (hjournal : ∃ lines, n'.journal = lines ++ n.journal ∧
      ∀ l ∈ lines, ∀ e, l.what ≠ .evicted e) : Filed n' := by
  obtain ⟨lines, hj, hl⟩ := hjournal
  have hold {e : EntryId} {l : JournalLine} (hmem : l ∈ n'.journal) (hwhat : l.what = .evicted e) :
      l ∈ n.journal := by
    rw [hj] at hmem
    rcases List.mem_append.mp hmem with hmem | hmem
    · exact absurd hwhat (hl l hmem e)
    · exact hmem
  have hgrows {l : JournalLine} (hmem : l ∈ n.journal) : l ∈ n'.journal :=
    hj ▸ List.mem_append_right _ hmem
  constructor
  · exact hcached ▸ h.keys
  · intro key e hmem
    obtain ⟨hlt, hkey, hnot⟩ := h.made (hcached ▸ hmem)
    exact ⟨hlen ▸ hlt, (hkeys e).trans hkey, fun l hmem hwhat => hnot l (hold hmem hwhat) hwhat⟩
  · intro e he hnot
    rw [hcached, hkeys e]
    exact h.kept (hlen ▸ he) fun l hmem => hnot l (hgrows hmem)
  · intro e l hmem hwhat
    exact hlen ▸ h.evicted l (hold hmem hwhat) hwhat
  · intro e he
    obtain ⟨l, hmem, hwhat⟩ := h.created (hlen ▸ he)
    exact ⟨l, hgrows hmem, hwhat⟩

/-- What is found under a key is the view that was made for it and not evicted since. -/
theorem find?_eq_some_iff (h : Filed n) {key : ServiceKey} {e : EntryId} :
    n.directory.find? key = some e ↔ e < n.directory.entries.length ∧ (n.entry e).key = key ∧
      ∀ l ∈ n.journal, l.what ≠ .evicted e := by
  constructor
  · intro hfind
    obtain ⟨before, after, heq, -⟩ := List.lookup_eq_some_iff.mp hfind
    exact h.made (heq ▸ List.mem_append_right _ List.mem_cons_self)
  · rintro ⟨hlt, rfl, hnot⟩
    have hmem := h.kept hlt hnot
    cases hfind : n.directory.find? (n.entry e).key with
    | none =>
      have hno := List.lookup_eq_none_iff.mp hfind _ hmem
      simp at hno
    | some e' =>
      obtain ⟨before, after, heq, -⟩ := List.lookup_eq_some_iff.mp hfind
      have hmem' : ((n.entry e).key, e') ∈ n.directory.cached :=
        heq ▸ List.mem_append_right _ List.mem_cons_self
      -- no key is cached twice, so what is found is that view
      have hsame := List.inj_on_of_nodup_map h.keys hmem' hmem rfl
      rw [(Prod.mk.inj hsame).2]

theorem evict (h : Filed n) (e : EntryId) : Filed (n.evict e) := by
  unfold Node.evict
  split
  · rename_i hholds
    have hfind : n.directory.find? (n.entry e).key = some e := beq_iff_eq.mp hholds
    have hin := h.find?_eq_some_iff.mp hfind
    have hmem {key : ServiceKey} {v : EntryId} :
        (key, v) ∈ (n.directory.drop e).cached ↔ (key, v) ∈ n.directory.cached ∧ v ≠ e := by
      simp only [Directory.drop, List.mem_filter, bne_iff_ne]
      refine and_congr_right fun hmem => not_congr ⟨?_, ?_⟩
      · intro hkey
        have hsame := h.find?_eq_some_iff.mpr (h.made hmem)
        rw [show key = (n.entry e).key from hkey, hfind] at hsame
        exact (Option.some.inj hsame).symm
      · intro hv
        rw [← (h.made hmem).2.1, hv]
        rfl
    constructor
    · exact (List.filter_sublist.map _).nodup h.keys
    · intro key v hin'
      obtain ⟨hin', hne⟩ := hmem.mp hin'
      obtain ⟨hlt, hkey, hnot⟩ := h.made hin'
      refine ⟨hlt, hkey, ?_⟩
      intro l hl hwhat
      rcases List.mem_cons.mp hl with rfl | hl
      · cases hwhat
        exact hne rfl
      · exact hnot l hl hwhat
    · intro v hlt hnot
      have hne : v ≠ e := by
        rintro rfl
        exact hnot _ List.mem_cons_self rfl
      exact hmem.mpr ⟨h.kept hlt fun l hl => hnot l (List.mem_cons_of_mem _ hl), hne⟩
    · intro v l hl hwhat
      rcases List.mem_cons.mp hl with rfl | hl
      · cases hwhat
        exact hin.1
      · exact h.evicted l hl hwhat
    · intro v hlt
      obtain ⟨l, hl, hwhat⟩ := h.created hlt
      exact ⟨l, List.mem_cons_of_mem _ hl, hwhat⟩
  · exact h

theorem evictIfGone (h : Filed n) (e : EntryId) : Filed (n.evictIfGone e) := by
  unfold Node.evictIfGone
  split
  · exact h.evict e
  · exact h

theorem notify (h : Filed n) (c : CallId) (changed : List EntryId) :
    Filed (n.notify c changed) := by
  have told (w : Watcher) :
      Filed (n.note (.notified c w (changed.map fun e => (e, n.entry e)))) :=
    h.of_eq rfl rfl (fun _ => rfl)
      ⟨[⟨n.time, .notified c w (changed.map fun e => (e, n.entry e))⟩], rfl, by simp⟩
  unfold Node.notify
  cases changed with
  | nil => exact h
  | cons e rest =>
    cases n.watcher with
    | none => exact h
    | some w =>
      cases w with
      | named name => exact told _
      | balancer => exact (told .balancer).of_eq rfl rfl (fun _ => rfl) ⟨[], rfl, by simp⟩

theorem evictAll (h : Filed n) (views : List EntryId) : Filed (views.foldl Node.evictIfGone n) := by
  induction views generalizing n with
  | nil => exact h
  | cons v views ih => exact ih (h.evictIfGone v)

theorem publish (h : Filed n) (c : CallId) (changed : List EntryId) :
    Filed (n.publish c changed) :=
  (h.evictAll changed).notify c changed

theorem create (h : Filed n) {key : ServiceKey} (hfind : n.directory.find? key = none) :
    Filed (n.created key) := by
  have hlen : (n.created key).directory.entries.length = n.directory.entries.length + 1 :=
    n.directory.length_create key
  have hnew : ((n.created key).entry n.directory.entries.length).key = key :=
    congrArg Entry.key ((n.directory.entry_create key _).trans (if_pos rfl))
  have hold {e : EntryId} (he : e < n.directory.entries.length) :
      (n.created key).entry e = n.entry e :=
    (n.directory.entry_create key e).trans (if_neg (Nat.ne_of_lt he))
  have hne : ∀ e, (Happening.created n.directory.entries.length) ≠ .evicted e := nofun
  constructor
  · show ((n.directory.cached ++ [(key, n.directory.entries.length)]).map (·.1)).Nodup
    rw [List.map_append, List.nodup_append]
    refine ⟨h.keys, List.nodup_singleton _, ?_⟩
    intro a ha b hb hab
    obtain ⟨x, hx, rfl⟩ := List.mem_map.mp ha
    have hno := List.lookup_eq_none_iff.mp hfind x hx
    simp only [List.map_cons, List.map_nil, List.mem_singleton] at hb
    simp [hab.trans hb] at hno
  · intro key' e hmem
    rcases List.mem_append.mp hmem with hmem | hmem
    · obtain ⟨hlt, hkey, hnot⟩ := h.made hmem
      refine ⟨hlen ▸ Nat.lt_succ_of_lt hlt, hold hlt ▸ hkey, ?_⟩
      intro l hl hwhat
      rcases List.mem_cons.mp hl with rfl | hl
      · exact hne e hwhat
      · exact hnot l hl hwhat
    · cases List.mem_singleton.mp hmem
      refine ⟨hlen ▸ Nat.lt_succ_self _, hnew, ?_⟩
      intro l hl hwhat
      rcases List.mem_cons.mp hl with rfl | hl
      · exact hne _ hwhat
      · exact Nat.lt_irrefl _ (h.evicted l hl hwhat)
  · intro e he hnot
    rw [hlen] at he
    rcases Nat.lt_succ_iff_lt_or_eq.mp he with he | rfl
    · rw [hold he]
      exact List.mem_append_left _
        (h.kept he fun l hl => hnot l (List.mem_cons_of_mem _ hl))
    · rw [hnew]
      exact List.mem_append_right _ (List.mem_singleton_self _)
  · intro e l hl hwhat
    rw [hlen]
    rcases List.mem_cons.mp hl with rfl | hl
    · exact absurd hwhat (hne e)
    · exact Nat.lt_succ_of_lt (h.evicted l hl hwhat)
  · intro e he
    rw [hlen] at he
    rcases Nat.lt_succ_iff_lt_or_eq.mp he with he | rfl
    · obtain ⟨l, hl, hwhat⟩ := h.created he
      exact ⟨l, List.mem_cons_of_mem _ hl, hwhat⟩
    · exact ⟨_, List.mem_cons_self, rfl⟩

/-! ### Every move -/

theorem modify (h : Filed n) (e : EntryId) {f : Entry → Entry}
    (hf : (f (n.entry e)).key = (n.entry e).key) : Filed (n.modifyEntry e f) :=
  h.of_eq rfl (n.length_modifyEntry e f) (fun v => n.entry_modifyEntry_congr Entry.key e v hf)
    ⟨[], rfl, by simp⟩

theorem note (h : Filed n) (what : Happening) (hwhat : ∀ e, what ≠ .evicted e) :
    Filed (n.note what) :=
  h.of_eq rfl rfl (fun _ => rfl) ⟨[⟨n.time, what⟩], rfl, by simpa using hwhat⟩

theorem of_views (h : Filed n) (hcached : n'.directory.cached = n.directory.cached)
    (hentries : n'.directory.entries = n.directory.entries) (hjournal : n'.journal = n.journal) :
    Filed n' :=
  h.of_eq hcached (congrArg List.length hentries)
    (fun e => by simp only [Node.entry, Directory.entry, hentries]) ⟨[], hjournal, by simp⟩

theorem quiet (h : Filed n) {c : CallId} {p p' : Point σ} (q : Quiet c n p n' p') : Filed n' := by
  cases q with
  | turn hturn => exact h
  | aside haside =>
    obtain ⟨hviews, -, -, -, -, hjournal⟩ := Node.rest_of_aside haside
    exact h.of_views (by rw [hviews]) (by rw [hviews]) hjournal
  | find valid hfind => exact h.of_views rfl rfl rfl
  | view e => exact h.evictIfGone e
  | choose e i =>
    obtain ⟨hviews, -, -, -, -, hjournal⟩ := Node.rest_of_choice (n.evictIfGone e) e i
    exact (h.evictIfGone e).of_views (by rw [hviews]) (by rw [hviews]) hjournal
  | sweepFree hfree => exact h.of_views rfl rfl rfl
  | sweepTaken htaken => exact (h.note (.sweepDropped c) nofun).of_views rfl rfl rfl
  | forceFree hfree => exact h.of_views rfl rfl rfl
  | sweepNone hnone => exact h.note (.sweepBegan c []) nofun
  | close forced members =>
    have hended := (h.publish c (Node.changedMembers members)).note
      (.sweepEnded c (Node.changedMembers members)) nofun
    exact hended.of_views rfl rfl rfl
  | publish change changed => exact h.publish c changed

theorem applyChange (h : Filed n) (c : CallId) (e : EntryId) (change : InstanceChange) :
    Filed (n.applyChange c e change).2 := by
  have hkey : (n.changeOn e change).1.key = (n.entry e).key := by
    rw [Node.changeOn, Entry.afterChange_fst]
  have htold := (h.modify e (f := fun _ => (n.changeOn e change).1) hkey).note
    (.changed c e change (n.changeOn e change).2) (by simp)
  exact htold.modify e (f := fun x => { x with writers := x.writers.tail }) rfl

/-- **Every move leaves the views filed.** -/
theorem move [Registry σ] {s s' : Midturn σ} (h : Filed s.node) (m : Move s s') :
    Filed s'.node := by
  cases m with
  | call | wake | answer | sleep | awaitFirst | forceWait | enlist | enlisted | member | lastMember
  | stray | stopPuller =>
    exact h.of_views rfl rfl rfl
  | callAfter => exact h.of_views rfl rfl rfl
  | quiet q => exact h.quiet q
  | protect n c k on =>
    exact h.of_eq (n.directory.cached_protect on) (n.directory.length_protect on)
      (n.directory.entry_protect_congr Entry.key (fun _ _ => rfl) on) ⟨[], rfl, by simp⟩
  | protectView n c k e on => exact h.modify e rfl
  | forget n c k e es next => exact (h.modify e rfl).note (.forgot e) (by simp)
  | startPuller n c k interval =>
    rw [n.startPuller_eq]
    exact h.of_views rfl rfl rfl
  | tick n c k due interval =>
    exact (h.note (.pulled n.nextCall) (by simp)).of_views rfl rfl rfl
  | create valid hfind => exact (h.create hfind).of_views rfl rfl rfl
  | @beginFirst n c k e next hfirst => exact h.modify e rfl
  | endFirst n c k e status next => exact h.modify e rfl
  | @lock n c k e job hfree => exact h.modify e rfl
  | @wait n c k e job hbusy => exact (h.modify e rfl).of_views rfl rfl rfl
  | @askNow n c k e next hwait =>
    exact (h.note (.fetchBegan c e next) (by simp)).of_views rfl rfl rfl
  | @ask n c k e next hwait =>
    exact (h.note (.fetchBegan c e next) (by simp)).of_views rfl rfl rfl
  | hear n c k e o next =>
    have hkey : (n.outcomeOn e o).1.key = (n.entry e).key := by
      rw [Node.outcomeOn, Entry.afterRefresh_fst]
    have htold := (h.modify e (f := fun _ => (n.outcomeOn e o).1) hkey).note
      (.refreshed c e next o (n.outcomeOn e o).2 (n.entry e).protection) (by simp)
    exact (htold.modify e (f := fun x => { x with writers := x.writers.tail }) rfl).of_views
      rfl rfl rfl
  | @sweepSome n c forced hsome =>
    exact (h.note (.sweepBegan c n.directory.initialized) (by simp)).of_views rfl rfl rfl
  | apply n c k e change | applyNext n c k e change => exact h.applyChange c e change

end Filed

end ServiceFinder
