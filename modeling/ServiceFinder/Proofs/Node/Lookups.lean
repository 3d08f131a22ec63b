/-
  ServiceFinder/Proofs/Node/Lookups.lean
  ======================================
  **Whoever looks a key up gets the view of the key, after its first refresh.**

  A lookup finds the view that is cached under its key or makes one.  From there on it is
  about that view, whatever becomes of the key: it makes the first refresh, or waits for
  the call that makes it, or finds it over (`Seeks`).  The first refresh is over when the
  registry has answered or its time is up, so nobody waits longer than that from the moment
  that the view was made.
-/
import ServiceFinder.Proofs.Node.Forced
import ServiceFinder.Proofs.Node.Settling

namespace ServiceFinder

variable {σ : Type}

/-! ### Moments and first refreshes later on -/

theorem Node.FirstEnded.mono {n n' : Node σ} {e : EntryId} {time time' : Nat}
    (h : n.FirstEnded e time) (hjournal : n.journal <:+ n'.journal) (hle : time ≤ time') :
    n'.FirstEnded e time' := by
  obtain ⟨l, hl, htime, hended⟩ := h
  exact ⟨l, hjournal.subset hl, Nat.le_trans htime hle, hended⟩

theorem Move.dueBy [Registry σ] {s s' : Midturn σ} (m : Move s s') (ho : Orderly s)
    {e : EntryId} (he : e < s.node.directory.entries.length) {due : Nat}
    (h : s.node.DueBy e due) : s'.node.DueBy e due := by
  intro l hl hwhat
  rw [m.options ho]
  rcases m.apart_or_touch ho with ha | ht
  · obtain ⟨lines, hj, hlines⟩ := ha.journal
    rw [hj] at hl
    rcases List.mem_append.mp hl with hl | hl
    · have hv := hlines l hl
      rw [hwhat] at hv
      cases hv
    · exact h l hl hwhat
  · cases ht with
    | wake | beginFirst | endFirst | lock | wait => exact h l hl hwhat
    | create =>
      rcases List.mem_cons.mp hl with rfl | hl
      · cases hwhat
        exact absurd he (Nat.lt_irrefl _)
      · exact h l hl hwhat
    | forget | askNow | ask | hear | apply =>
      rcases List.mem_cons.mp hl with rfl | hl
      · cases hwhat
      · exact h l hl hwhat

/-- The view `e` was made for the key. -/
structure Node.MadeFor (n : Node σ) (key : ServiceKey) (e : EntryId) : Prop where
  lt_length : e < n.directory.entries.length
  key : (n.entry e).key = key

theorem Node.MadeFor.move [Registry σ] {s s' : Midturn σ} {key : ServiceKey} {e : EntryId}
    (h : s.node.MadeFor key e) (ho : Orderly s) (m : Move s s') : s'.node.MadeFor key e :=
  ⟨Nat.lt_of_lt_of_le h.lt_length (m.length_le ho), (m.key ho h.lt_length).trans h.key⟩

/-! ### How far a lookup has come -/

/-- The view `e`, as it may be handed out for its key at some time: its first refresh has
    ended. -/
structure Node.HandsOut (n : Node σ) (key : ServiceKey) (e : EntryId) (x : Entry) (time : Nat) :
    Prop where
  key : x.key = key
  initialized : x.isInitialized = true
  status : x.status ≠ .initial
  ended : n.FirstEnded e time

/-- The call `c` looks the view `e` of a key up and has not answered yet. -/
inductive Seeks (c : CallId) (key : ServiceKey) (e : EntryId) (s : Midturn σ) : Prop where
  | ensuring (run : s.running = some (c, .ensuring e .view))
  -- It makes the first refresh itself
  | lining (run : s.running = some (c, .lining e (.refresh (.first .view))))
  | asking (run : s.running = some (c, .asking e (.first .view)))
  | fetching {due o} (rests : (c, .fetching e due o (.first .view)) ∈ s.node.calls)
  | heard {o} (run : s.running = some (c, .heard e o (.first .view)))
  | refreshed {status} (run : s.running = some (c, .refreshed e status (.first .view)))
  -- Another call makes it
  | awaiting (rests : (c, .awaitingFirst e .view) ∈ s.node.calls)
  -- It is over
  | passed (run : s.running = some (c, .passed e .view))
      (done : (s.node.entry e).firstRefresh = .over)
  | replying {x} (run : s.running = some (c, .replying (.view e x)))
      (shown : s.node.HandsOut key e x s.node.time)

/-- **A lookup goes on with every move until it answers.** -/
theorem Seeks.move [Registry σ] {c : CallId} {key : ServiceKey} {e : EntryId} {s s' : Midturn σ}
    (h : Seeks c key e s) (hs : Steady s) (made : s.node.MadeFor key e) (m : Move s s') :
    Seeks c key e s' ∨ ∃ x, ⟨c, s.node.time, .view e x⟩ ∈ s'.node.replies ∧
      s'.node.HandsOut key e x s.node.time := by
  have he := made.lt_length
  rcases s with ⟨n, r, k⟩
  cases h with
  | ensuring run =>
    cases run
    cases m with
    | quiet q =>
      cases q with
      | turn hturn =>
        simp only [Node.turnsTo] at hturn
        split at hturn
        · rename_i hover
          cases hturn
          exact .inl (.passed rfl hover)
        · cases hturn
    | awaitFirst hflag => exact .inl (.awaiting (Node.mem_rest_self ..))
    | beginFirst hflag => exact .inl (.lining rfl)
  | lining run =>
    cases run
    cases m with
    | quiet q =>
      cases q with
      | turn hturn => cases hturn
    | lock hfree => exact .inl (.asking rfl)
    | wait hbusy =>
      rw [(hs.first e he).writes_of_lining he] at hbusy
      cases hbusy
  | asking run =>
    cases run
    cases m with
    | quiet q =>
      cases q with
      | turn hturn => cases hturn
    | askNow hwait => exact .inl (.heard rfl)
    | ask hwait => exact .inl (.fetching (Node.mem_rest_self ..))
  | fetching rests =>
    rcases m.rests_or_wakes rests hs.sound.orderly (by simp) (by simp) with hrests | ⟨-, rfl⟩
    · exact .inl (.fetching hrests)
    · exact .inl (.heard rfl)
  | heard run =>
    cases run
    cases m with
    | quiet q =>
      cases q with
      | turn hturn => cases hturn
    | hear => exact .inl (.refreshed rfl)
  | refreshed run =>
    cases run
    cases m with
    | quiet q =>
      cases q with
      | turn hturn => cases hturn
    | endFirst =>
      exact .inl (.passed rfl (congrArg Entry.firstRefresh (Node.entry_modifyEntry_self _ he)))
  | awaiting rests =>
    rcases m.rests_or_wakes rests hs.sound.orderly (by simp) (by simp) with hrests | ⟨awake, rfl⟩
    · exact .inl (.awaiting hrests)
    · exact .inl (.passed rfl (beq_iff_eq.mp awake))
  | passed run done =>
    cases run
    obtain ⟨hstatus, hended⟩ := (hs.first e he).ended_of_over done
    cases m with
    | quiet q =>
      have hstill := q.still
      cases q with
      | turn hturn => cases hturn
      | view e =>
        refine .inl (.replying rfl ?_)
        rw [hstill.entry e]
        obtain ⟨lines, hj, -⟩ := hstill.journal
        exact ⟨made.key, beq_iff_eq.mpr done, hstatus,
          hended.mono ⟨lines, hj.symm⟩ (Nat.le_of_eq hstill.time.symm)⟩
  | replying run shown =>
    cases run
    rw [m.of_replying]
    exact .inr ⟨_, List.mem_cons_self, shown.key, shown.initialized, shown.status, shown.ended⟩

/-! ### In time -/

/-- The call `c` looks the view `e` up, and neither is nor was late. -/
inductive Looks (c : CallId) (key : ServiceKey) (e : EntryId) (s : Midturn σ) : Prop where
  | seeking (h : Seeks c key e s) (dueBy : s.node.DueBy e s.node.time)
  | answered {time x} (reply : ⟨c, time, .view e x⟩ ∈ s.node.replies)
      (shown : s.node.HandsOut key e x time) (dueBy : s.node.DueBy e time)

theorem Looks.move [Registry σ] {c : CallId} {key : ServiceKey} {e : EntryId} {s s' : Midturn σ}
    (h : Looks c key e s) (hs : Steady s) (made : s.node.MadeFor key e) (m : Move s s') :
    Looks c key e s' := by
  have ho := hs.sound.orderly
  cases h with
  | seeking h dueBy =>
    have hdue := m.dueBy ho made.lt_length dueBy
    rcases h.move hs made m with hseeks | ⟨x, hreply, hshown⟩
    · exact .seeking hseeks (m.time ho ▸ hdue)
    · exact .answered hreply hshown hdue
  | answered reply shown dueBy =>
    refine .answered (m.replies_subset reply) ?_ (m.dueBy ho made.lt_length dueBy)
    exact ⟨shown.key, shown.initialized, shown.status,
      shown.ended.mono (m.journal_suffix ho) (Nat.le_refl _)⟩

/-- A lookup rests with the write lock or behind the call that has it. -/
theorem Seeks.at_rest {c : CallId} {key : ServiceKey} {e : EntryId} {n : Node σ}
    {k : Option (CallId × Bool × List EntryId)} (h : Seeks c key e ⟨n, none, k⟩) :
    (∃ due o, (c, .fetching e due o (.first .view)) ∈ n.calls) ∨
      (c, .awaitingFirst e .view) ∈ n.calls := by
  cases h with
  | fetching rests => exact .inl ⟨_, _, rests⟩
  | awaiting rests => exact .inr rests
  | ensuring run => cases run
  | lining run => cases run
  | asking run => cases run
  | heard run => cases run
  | refreshed run => cases run
  | passed run => cases run
  | replying run => cases run

/-- While nobody can take a turn, the registry has yet to answer the first lookup of a view
    that somebody looks up. -/
theorem Seeks.fetching_of_idle {c : CallId} {key : ServiceKey} {e : EntryId} {n : Node σ}
    (h : Seeks c key e (⟨n, none, none⟩ : Midturn σ)) (hs : Steady (⟨n, none, none⟩ : Midturn σ))
    (he : e < n.directory.entries.length) (idle : n.nextAwake = none) :
    ∃ c' due o next, (c', .fetching e due o (.first next)) ∈ n.calls ∧ n.DueBy e due := by
  rcases (hs.first e he).rest_cases with ⟨c', due, o, next, hc, -, hdue⟩ | ⟨hover, hnone⟩
  · exact ⟨c', due, o, next, hc, hdue⟩
  · rcases h.at_rest with ⟨due, o, rests⟩ | rests
    · -- whoever makes the first refresh stands in the line, where nobody is left
      have hline := List.mem_of_head? (hs.sound.inLine.resting rests rfl)
      exact absurd ⟨rests, rfl, hline⟩ (hnone c _)
    · -- and whoever waits for it is awake once it is over
      have hasleep := Node.not_awake_of_idle idle (hs.sound.orderly.stage?_eq rests)
      have hawake : (n.entry e).isInitialized = true := beq_iff_eq.mpr hover
      cases hawake.symm.trans hasleep

theorem Looks.wait {c : CallId} {key : ServiceKey} {e : EntryId} {n : Node σ} {due : Nat}
    (h : Looks c key e (⟨n, none, none⟩ : Midturn σ)) (hs : Steady (⟨n, none, none⟩ : Midturn σ))
    (made : n.MadeFor key e) (idle : n.nextAwake = none) (hdue : n.nextDue = some due) :
    Looks c key e (⟨{ n with time := due }, none, none⟩ : Midturn σ) := by
  cases h with
  | answered reply shown dueBy =>
    exact .answered reply ⟨shown.key, shown.initialized, shown.status, shown.ended⟩ dueBy
  | seeking h dueBy =>
    obtain ⟨c', due', o, next, hc, hby⟩ := h.fetching_of_idle hs made.lt_length idle
    refine .seeking ?_ fun l hl hwhat => (Node.nextDue_le hdue hc rfl).trans (hby l hl hwhat)
    rcases h.at_rest with ⟨due, o, rests⟩ | rests
    · exact .fetching rests
    · exact .awaiting rests

/-! ### Whatever happens next -/

section Turns

variable [Registry σ] {c : CallId} {key : ServiceKey} {e : EntryId} {n m : Node σ}

theorem Looks.reachable (h : Looks c key e (⟨n, none, none⟩ : Midturn σ))
    (hs : Steady (⟨n, none, none⟩ : Midturn σ)) (made : n.MadeFor key e)
    (reach : Node.Reachable n m) :
    Steady (⟨m, none, none⟩ : Midturn σ) ∧ m.MadeFor key e ∧
      Looks c key e (⟨m, none, none⟩ : Midturn σ) :=
  reach.keeps (I := fun s => s.node.MadeFor key e ∧ Looks c key e s) hs
    (fun hs ⟨made, h⟩ mv => ⟨made.move hs.sound.orderly mv, h.move hs made mv⟩)
    (fun hs idle hdue ⟨made, h⟩ => ⟨⟨made.lt_length, made.key⟩, h.wait hs made idle hdue⟩)
    ⟨made, h⟩

/-- **Whoever looks a view up is bound to get an answer.** -/
theorem Looks.inevitable (h : Looks c key e (⟨n, none, none⟩ : Midturn σ))
    (hs : Steady (⟨n, none, none⟩ : Midturn σ)) (made : n.MadeFor key e) :
    Node.Inevitable (fun m => ∃ r ∈ m.replies, r.call = c) n := by
  obtain ⟨l, hl, hwhat⟩ := hs.filed.created made.lt_length
  refine Node.inevitable_of_deadline (I := fun m => Node.Reachable n m)
    (l.time + n.directory.options.fetchTimeout)
    (fun {m} reach => (h.reachable hs made reach).1)
    (fun {m m'} reach hadv => reach.turn hadv.turn) ?_ .here
  intro m reach hnot idle
  obtain ⟨hs', made', h'⟩ := h.reachable hs made reach
  cases h' with
  | answered reply => exact absurd ⟨_, reply, rfl⟩ hnot
  | seeking h' =>
    obtain ⟨c', d, o, next, hc, hby⟩ := h'.fetching_of_idle hs' made'.lt_length idle
    obtain ⟨due, hdue, hle⟩ := Node.exists_nextDue_le hc rfl
    obtain ⟨hjournal, -, hoptions⟩ := reach.grows hs
    have hd := hby l (hjournal.subset hl) hwhat
    rw [hoptions] at hd
    exact ⟨due, hdue, hle.trans hd⟩

end Turns

/-! ### The beginning of a lookup -/

/-- The view that a lookup of a valid key is for: the one that is cached, or else a new
    one. -/
def Node.viewFor (n : Node σ) (key : ServiceKey) : EntryId :=
  (n.directory.find? key).getD n.directory.entries.length

section Beginning

variable [Registry σ] {c : CallId} {e : EntryId} {n n' : Node σ} {key : ServiceKey}

theorem looks_of_ensuring (hs : Steady (⟨n, some (c, .ensuring e .view), none⟩ : Midturn σ))
    (made : n.MadeFor key e) (dueBy : n.DueBy e n.time) :
    (n.ensureFirst c e .view).MadeFor key e ∧
      Looks c key e (⟨n.ensureFirst c e .view, none, none⟩ : Midturn σ) :=
  ((moves_ensuring n c none e .view).moves.keeps
    (I := fun s => Steady s ∧ s.node.MadeFor key e ∧ Looks c key e s)
    (fun ⟨hs, made, h⟩ m => ⟨hs.move m, made.move hs.sound.orderly m, h.move hs made m⟩)
    ⟨hs, made, .seeking (.ensuring rfl) dueBy⟩).2

omit [Registry σ] in
theorem Node.afterFirst_view (n : Node σ) (c : CallId) (e : EntryId) :
    (n.afterFirst c e .view).replies = ⟨c, n.time, .view e (n.entry e)⟩ :: n.replies := by
  have hstill := n.still_evictIfGone e
  simp only [afterFirst, answer, hstill.entry e, hstill.time, hstill.replies]

omit [Registry σ] in
/-- A view that was just made is not late. -/
theorem dueBy_of_made {k : Option (CallId × Bool × List EntryId)} {next : AfterFirst}
    (h : First e ⟨n, some (c, .ensuring e next), k⟩)
    (hflag : (n.entry e).firstRefresh = .pending) : n.DueBy e n.time := by
  cases h with
  | made _ _ _ _ fresh =>
    intro l hl hwhat
    rw [fresh l hl hwhat]
    exact Nat.le_add_right ..
  | lining run => cases run
  | asking run => cases run
  | heard run => cases run
  | refreshed run => cases run
  | fetching _ flag => cases hflag.symm.trans flag
  | past flag => cases hflag.symm.trans flag

/-- What a lookup of a valid key comes to at once, if it is for the view `e`: it answers if the
    first refresh of the view is over, and else it is under way. -/
def Sought (n n' : Node σ) (c : CallId) (key : ServiceKey) (e : EntryId) : Prop :=
  ((n.entry e).isInitialized = true ∧ n.HandsOut key e (n.entry e) n.time ∧
    ⟨c, n.time, .view e (n.entry e)⟩ ∈ n'.replies) ∨
  ((n.entry e).isInitialized = false ∧ n'.MadeFor key e ∧
    Looks c key e (⟨n', none, none⟩ : Midturn σ))

/-- A lookup finds a view under its key. -/
theorem Begins.find_cached (h : Begins (.find key) c n n')
    (hs : Steady (⟨n, none, none⟩ : Midturn σ)) (valid : key.check = .ok ())
    (hfind : n.directory.find? key = some e) : Sought n n' c key e := by
  obtain ⟨m, hviews, -, hjournal, -, htime, hstart, rfl⟩ := h.moves
  have hlooking := (hs.move hstart).move (.quiet (.turn rfl))
  have hfind' : m.directory.find? key = some e := hviews ▸ hfind
  have hentry : m.entry e = n.entry e := by rw [Node.entry, hviews]; rfl
  obtain ⟨he, hkey, -⟩ := hs.filed.find?_eq_some_iff.mp hfind
  let k := m.measure (.cached m.directory.size)
  have hlookup : m.start c (.find key) = k.ensureFirst c e .view := by
    simp only [Node.start, Node.lookup, valid, hfind', k]
  rw [hlookup]
  rcases (hs.first e he).rest_cases with ⟨c', due, o, next, hc, hflag, hdue⟩ | ⟨hover, -⟩
  · have hle : n.time ≤ due := hs.punctual.calls hc
    have hensuring := hlooking.move (.quiet (.find valid hfind'))
    have hnew : (n.entry e).isInitialized = false := by
      rw [Entry.isInitialized, hflag]
      rfl
    have hmade : k.MadeFor key e := by
      refine ⟨?_, (congrArg Entry.key hentry).trans hkey⟩
      show e < m.directory.entries.length
      rwa [hviews]
    have hdueBy : k.DueBy e k.time := by
      intro l hl hwhat
      show m.time ≤ l.time + m.directory.options.fetchTimeout
      rw [htime, hviews]
      exact hle.trans (hdue l (hjournal ▸ hl) hwhat)
    exact .inr ⟨hnew, looks_of_ensuring hensuring hmade hdueBy⟩
  · have hinit : (n.entry e).isInitialized = true := beq_iff_eq.mpr hover
    have hflag : (k.entry e).firstRefresh = .over :=
      (congrArg Entry.firstRefresh hentry).trans hover
    have hpassed : k.ensureFirst c e .view = k.afterFirst c e .view := by
      simp only [Node.ensureFirst, hflag]
    obtain ⟨hstatus, hended⟩ := (hs.first e he).ended_of_over hover
    refine .inl ⟨hinit, ⟨hkey, hinit, hstatus, hended⟩, ?_⟩
    rw [hpassed, Node.afterFirst_view, show k.time = n.time from htime,
      show k.entry e = n.entry e from hentry]
    exact List.mem_cons_self

/-- A lookup makes a view. -/
theorem Begins.find_new (h : Begins (.find key) c n n')
    (hs : Steady (⟨n, none, none⟩ : Midturn σ)) (valid : key.check = .ok ())
    (hfind : n.directory.find? key = none) : Sought n n' c key n.directory.entries.length := by
  obtain ⟨m, hviews, -, -, -, -, hstart, rfl⟩ := h.moves
  have hlooking := (hs.move hstart).move (.quiet (.turn rfl))
  have hfind' : m.directory.find? key = none := hviews ▸ hfind
  let k := (m.created key).measure (.cached (m.created key).directory.size)
  have hlookup : m.start c (.find key) = k.ensureFirst c m.directory.entries.length .view := by
    simp only [Node.start, Node.lookup, valid, hfind', k, Node.created]
  have hensuring := hlooking.move (.create valid hfind')
  have hnew : k.entry m.directory.entries.length =
      { key, protection := m.directory.protection } :=
    (m.directory.entry_create key _).trans (if_pos rfl)
  have he : m.directory.entries.length < k.directory.entries.length := by
    show _ < (m.directory.create key).entries.length
    rw [Directory.length_create]
    exact Nat.lt_succ_self _
  have hdueBy := dueBy_of_made (hensuring.first _ he) (congrArg Entry.firstRefresh hnew)
  rw [hlookup, ← hviews]
  refine .inr ⟨?_, looks_of_ensuring hensuring ⟨he, congrArg Entry.key hnew⟩ hdueBy⟩
  rw [Node.entry, hviews, Directory.entry_of_length_le (Nat.le_refl _)]
  rfl

theorem Begins.find_valid (h : Begins (.find key) c n n')
    (hs : Steady (⟨n, none, none⟩ : Midturn σ)) (valid : key.check = .ok ()) :
    Sought n n' c key (n.viewFor key) := by
  unfold Node.viewFor
  cases hfind : n.directory.find? key with
  | some e => exact h.find_cached hs valid hfind
  | none => exact h.find_new hs valid hfind

/-- A lookup of an invalid key is refused, and nothing else happens. -/
theorem Begins.find_invalid (h : Begins (.find key) c n n') {cause : LookupFailure}
    (invalid : key.check = .error cause) :
    n'.replies = ⟨c, n.time, .refused (.lookup cause)⟩ :: n.replies ∧
      n'.directory = n.directory ∧ n'.registry = n.registry ∧ n'.journal = n.journal := by
  obtain ⟨m, hviews, hregistry, hjournal, hreplies, htime, -, rfl⟩ := h.moves
  have hanswer : m.start c (.find key) = m.answer c (.refused (.lookup cause)) := by
    simp only [Node.start, Node.lookup, invalid]
  rw [hanswer]
  refine ⟨?_, hviews, hregistry, hjournal⟩
  rw [Node.answer, htime, hreplies]

end Beginning

/-! ### Every lookup -/

/-- What has become of the lookup of a valid key that the call `c` began on the node `n`, once
    the node has become `m`. -/
structure Served [Registry σ] (n m : Node σ) (key : ServiceKey) (c : CallId) : Prop where
  /-- It answers with the view of the key after the first refresh of the view: at once if that
      was over, and else within the time that a lookup may take. -/
  answer : ∀ r ∈ m.replies, r.call = c → ∃ x, r.reply = .view (n.viewFor key) x ∧
    m.HandsOut key (n.viewFor key) x r.time ∧
    if (n.entry (n.viewFor key)).isInitialized then r.time = n.time
    else m.DueBy (n.viewFor key) r.time
  /-- Until it has answered that time is not over, and it is bound to answer. -/
  pending : (∀ r ∈ m.replies, r.call ≠ c) →
    (n.entry (n.viewFor key)).isInitialized = false ∧ m.DueBy (n.viewFor key) m.time ∧
    Node.Inevitable (fun k => ∃ r ∈ k.replies, r.call = c) m

theorem Begins.served [Registry σ] {c : CallId} {n n' m : Node σ} {key : ServiceKey}
    (h : Begins (.find key) c n n') (hs : Steady (⟨n, none, none⟩ : Midturn σ))
    (valid : key.check = .ok ()) (reach : Node.Reachable n' m) : Served n m key c := by
  have hs' := (Node.Reachable.here.turn h.turn).steady hs
  have ho := (reach.steady hs').sound.orderly
  rcases h.find_valid hs valid with ⟨hinit, hshown, hreply⟩ | ⟨hnew, made, hlooks⟩
  · have hmem := (reach.grows hs').2.1 hreply
    have hjournal := (((Node.Reachable.here.turn h.turn).trans reach).grows hs).1
    constructor
    · intro r hr hc
      rw [ho.reply_unique hr hmem hc, if_pos hinit]
      exact ⟨_, rfl, ⟨hshown.key, hshown.initialized, hshown.status,
        hshown.ended.mono hjournal (Nat.le_refl _)⟩, rfl⟩
    · intro hnone
      exact absurd rfl (hnone _ hmem)
  · obtain ⟨hsteady, made', hlooks'⟩ := hlooks.reachable hs' made reach
    constructor
    · intro r hr hc
      cases hlooks' with
      | answered hmem hshown hdue =>
        rw [ho.reply_unique hr hmem hc, if_neg (by simp [hnew])]
        exact ⟨_, rfl, hshown, hdue⟩
      | seeking hseeks hdue =>
        rcases hseeks.at_rest with ⟨due, o, rests⟩ | rests
        · exact absurd hc (ho.not_answered rests hr)
        · exact absurd hc (ho.not_answered rests hr)
    · intro hnone
      cases hlooks' with
      | answered hmem => exact absurd rfl (hnone _ hmem)
      | seeking hseeks hdue =>
        exact ⟨hnew, hdue, Looks.inevitable (.seeking hseeks hdue) hsteady made'⟩

/-- The view `e` was made and is refreshed for the first time once. -/
structure Node.RefreshedOnce (n : Node σ) (e : EntryId) : Prop where
  created : ∃ l ∈ n.journal, l.what = .created e
  asks : firstAsks e n.journal = 1
  ends : firstEnds e n.journal = if (n.entry e).isInitialized then 1 else 0

/-- **All lookups of a key share one view and its one first refresh, and answer as soon as it is
    over.** -/
theorem lookups_share_first_refresh [Registry σ] {start n : Node σ} (untouched : start.Untouched)
    (empty : start.directory.entries = []) (reach : Node.Reachable start n) :
    (∀ e < n.directory.entries.length, n.RefreshedOnce e) ∧
      ∀ {key c n'}, Begins (.find key) c n n' →
        (¬ key.Valid → ∃ reason,
          n'.replies = ⟨c, n.time, .refused (.lookup (.invalidKey reason))⟩ :: n.replies ∧
            n'.directory = n.directory ∧ n'.registry = n.registry ∧ n'.journal = n.journal) ∧
        (key.Valid →
          (∀ e, n.MadeFor key e → (∀ l ∈ n.journal, l.what ≠ .evicted e) → n.viewFor key = e) ∧
            ∀ {m}, Node.Reachable n' m → Served n m key c) := by
  have steady := reach.steady (.of_untouched untouched empty)
  constructor
  · intro e he
    have hfirst := steady.first e he
    exact ⟨steady.filed.created he, hfirst.asks_of_rest, hfirst.ends_of_rest steady.sound⟩
  · intro key c n' begins
    constructor
    · intro invalid
      obtain ⟨reason, hcheck⟩ := ServiceKey.exists_check_eq_error invalid
      exact ⟨reason, begins.find_invalid hcheck⟩
    · intro valid
      constructor
      · intro e made kept
        have hfind := steady.filed.find?_eq_some_iff.mpr ⟨made.lt_length, made.key, kept⟩
        rw [Node.viewFor, hfind]
        rfl
      · intro m later
        exact begins.served steady (key.check_eq_ok_iff.mpr valid) later

/-! ### Two lookups of a service that is gone -/

namespace Gone

def key : ServiceKey := ⟨"shop", "store", "orders", everyVersion⟩

def start : Node Script := .caching ⟨[(key, [⟨.notFound, 50⟩])]⟩ {} .retainNonEmpty

/-- The first lookup waits for the registry. -/
def waiting : Node Script := (start.call (.find key)).2

/-- The second lookup has begun. -/
def joined : Node Script := (waiting.call (.find key)).2

def evicted : Node Script := joined.settle [0, 1] 5

end Gone

/-- Both lookups get the view that the first one made, though it is evicted at once. -/
theorem gone_lookups_served :
    (Gone.start.Untouched ∧ Gone.start.directory.entries = [] ∧
      Gone.start.Reachable Gone.waiting ∧ Begins (.find Gone.key) 1 Gone.waiting Gone.joined ∧
      Gone.key.Valid ∧ Gone.joined.Reachable Gone.evicted) ∧
    (Gone.waiting.RefreshedOnce 0 ∧ Served Gone.waiting Gone.evicted Gone.key 1) ∧
    Gone.evicted.replies.map (fun r => (r.call, r.time)) = [(1, 50), (0, 50)] ∧
    Gone.evicted.directory.cached = [] ∧ firstAsks 0 Gone.evicted.journal = 1 := by
  have untouched : Gone.start.Untouched := Node.untouched_caching ..
  have reach : Gone.start.Reachable Gone.waiting := .turn .here (.call _ _)
  have begins : Begins (.find Gone.key) 1 Gone.waiting Gone.joined := .now _ (by decide)
  have valid : Gone.key.Valid := by decide
  have later : Gone.joined.Reachable Gone.evicted := Node.reachable_settle ..
  obtain ⟨once, served⟩ := lookups_share_first_refresh untouched rfl reach
  exact ⟨⟨untouched, rfl, reach, begins, valid, later⟩,
    ⟨once 0 (by decide), ((served begins).2 valid).2 later⟩, by decide, by decide, by decide⟩

end ServiceFinder
