/-
  ServiceFinder/Proofs/Node/Tidying.lean
  ======================================
  **What is gone does not stay cached.**

  A view is found gone by a refresh, and whoever made the refresh looks at the view again
  before it answers: a lookup in the same turn, a sweep only when all its members have
  reported.  So a view that is gone may be cached for a while, but then somebody is going to
  drop it (`Doomed`).  Every move leaves it so or drops the view.  Only whoever holds a view can
  refresh it without looking at it again (`isPrivate`), and when nobody does and no call is on
  its way, nothing that is cached is gone.
-/
import ServiceFinder.Proofs.Node.Evicting
import ServiceFinder.Proofs.Node.Passes

namespace ServiceFinder

variable {σ : Type}

/-! ### Private refreshes -/

def AfterFirst.isPrivate : AfterFirst → Bool
  | .done => true
  | _ => false

/-- Whether a refresh that goes on so leaves it at that, even if the view is gone. -/
def AfterRefresh.isPrivate : AfterRefresh → Bool
  | .status => true
  | .first next => next.isPrivate
  | .member _ => false

/-- Whether an operation is a refresh of one view for whoever holds it, and no more. -/
def Operation.isPrivate : Operation σ → Bool
  | .ensureFirst _ | .refresh _ | .forceRefresh _ => true
  | _ => false

def Job.isPrivate : Job → Bool
  | .refresh next => next.isPrivate
  | .change .. => false

def AfterForgetting.isPrivate : AfterForgetting → Bool
  | .answer => false
  | .refresh _ sweep? => (AfterRefresh.of sweep?).isPrivate

def Stage.isPrivate : Stage σ → Bool
  | .scheduled _ op => op.isPrivate
  | .refreshing _ next | .fetching _ _ _ next => next.isPrivate
  | .awaitingFirst _ next => next.isPrivate
  | _ => false

def Point.isPrivate : Point σ → Bool
  | .starting op => op.isPrivate
  | .looking _ next | .ensuring _ next | .passed _ next => next.isPrivate
  | .lining _ job => job.isPrivate
  | .asking _ next | .heard _ _ next | .refreshed _ _ next => next.isPrivate
  | .forgetting _ next => next.isPrivate
  | _ => false

def Node.Act.isPrivate : Node.Act σ → Bool
  | .call op | .callAfter _ op => op.isPrivate
  | _ => false

@[simp] theorem Stage.isPrivate_point (st : Stage σ) : st.point.isPrivate = st.isPrivate := by
  cases st <;> rfl

@[simp] theorem Job.isPrivate_point (e : EntryId) (job : Job) :
    (job.point e : Point σ).isPrivate = job.isPrivate := by
  cases job <;> rfl

@[simp] theorem Job.isPrivate_stage (e : EntryId) (job : Job) :
    (job.stage e : Stage σ).isPrivate = job.isPrivate := by
  cases job <;> rfl

theorem Node.isPrivate_of_turnsTo {n : Node σ} {p p' : Point σ} (h : n.turnsTo p = some p')
    (hp : p.isPrivate = false) : p'.isPrivate = false := by
  unfold turnsTo at h
  split at h
  all_goals first
    | (cases h; exact hp)
    | (cases h; rfl)
    | (split at h <;> cases h <;> first | rfl | exact hp)
    | cases h

theorem Quiet.isPrivate {c : CallId} {n n' : Node σ} {p p' : Point σ} (q : Quiet c n p n' p')
    (hp : p.isPrivate = false) : p'.isPrivate = false := by
  cases q with
  | turn h => exact Node.isPrivate_of_turnsTo h hp
  | find => exact hp
  | _ => rfl

/-- No call refreshes a view for whoever holds it, or is going to. -/
structure Midturn.Public (s : Midturn σ) : Prop where
  calls : ∀ x ∈ s.node.calls, x.2.isPrivate = false
  running : ∀ {c p}, s.running = some (c, p) → p.isPrivate = false

namespace Midturn.Public

variable {s s' : Midturn σ}

theorem of_run (h : s.Public) {n : Node σ} {c : CallId} {p : Point σ}
    {k : Option (CallId × Bool × List EntryId)} (hcalls : n.calls ⊆ s.node.calls)
    (hp : p.isPrivate = false) : Midturn.Public ⟨n, some (c, p), k⟩ where
  calls x hx := h.calls x (hcalls hx)
  running hrun := by
    cases hrun
    exact hp

theorem of_rest (h : s.Public) {n : Node σ} {c : CallId} {st : Stage σ}
    {k : Option (CallId × Bool × List EntryId)} (hcalls : n.calls ⊆ s.node.calls)
    (hst : st.isPrivate = false) : Midturn.Public ⟨n.rest c st, none, k⟩ where
  calls x hx := by
    rcases Node.mem_rest.mp hx with hx | ⟨-, heq⟩
    · exact h.calls x (hcalls hx)
    · rw [heq]
      exact hst
  running := nofun

theorem of_calls (h : s.Public) {n : Node σ} {k : Option (CallId × Bool × List EntryId)}
    (hcalls : n.calls ⊆ s.node.calls) : Midturn.Public ⟨n, none, k⟩ where
  calls x hx := h.calls x (hcalls hx)
  running := nofun

theorem unrest_subset (n : Node σ) (c : CallId) : (n.unrest c).calls ⊆ n.calls :=
  fun _ hx => (Node.mem_unrest.mp hx).1

theorem wake {n : Node σ} (h : Midturn.Public ⟨n, none, none⟩) {c : CallId} {st : Stage σ}
    (rests : n.stage? c = some st) : Midturn.Public ⟨n.unrest c, some (c, st.point), none⟩ := by
  apply h.of_run (unrest_subset n c)
  rw [Stage.isPrivate_point]
  exact h.calls _ (Node.mem_of_stage? rests)

theorem move [Registry σ] (h : s.Public) (m : Move s s') (busy : s.busy = true) : s'.Public := by
  cases m with
  | call | callAfter | wake => cases busy
  | quiet q =>
    have hcalls := q.still.calls
    exact h.of_run (hcalls ▸ List.Subset.refl _) (q.isPrivate (h.running rfl))
  | answer | enlisted | stray => exact h.of_calls (List.Subset.refl _)
  | protect | protectView | forget | create | beginFirst | endFirst | askNow | hear =>
    have hp := h.running rfl
    exact h.of_run (List.Subset.refl _) hp
  | enlist | apply | applyNext => exact h.of_run (List.Subset.refl _) rfl
  | lock => exact h.of_run (List.Subset.refl _) ((Job.isPrivate_point ..).trans (h.running rfl))
  | sleep | forceWait | sweepSome => exact h.of_rest (List.Subset.refl _) rfl
  | awaitFirst | ask =>
    have hp := h.running rfl
    exact h.of_rest (List.Subset.refl _) hp
  | wait => exact h.of_rest (List.Subset.refl _) ((Job.isPrivate_stage ..).trans (h.running rfl))
  | startPuller n c k interval =>
    refine ⟨?_, fun hrun => by cases hrun; rfl⟩
    rintro ⟨c', st⟩ hx
    rcases Node.mem_startPuller.mp hx with hx | ⟨-, -, rfl⟩
    · exact h.calls _ (Node.mem_stopPuller.mp hx).1
    · rfl
  | stopPuller n c k => exact h.of_run (fun x hx => (Node.mem_stopPuller.mp hx).1) rfl
  | tick n c k due interval =>
    have hpulling :
        Midturn.Public ⟨n.rest c (.pulling (due + Timer.run interval) interval), none, k⟩ :=
      h.of_rest (List.Subset.refl _) rfl
    exact hpulling.of_rest (n := ((n.rest c (.pulling _ interval)).newCall.2.note
      (.pulled _))) (List.Subset.refl _) rfl
  | member => exact h.of_rest (unrest_subset ..) rfl
  | lastMember => exact h.of_run (unrest_subset ..) rfl

end Midturn.Public

/-! ### Somebody is going to drop what is gone -/

/-- Somebody is going to drop the view `e`, unless it is not gone by then. -/
inductive Doomed (e : EntryId) (s : Midturn σ) : Prop where
  /-- A sweep was told that the view is gone, and waits for its other members. -/
  | told {c forced members} (rests : (c, .pass forced members) ∈ s.node.calls)
      (mem : ⟨e, some .serviceNotFound⟩ ∈ members)
  | refreshed {c next} (run : s.running = some (c, .refreshed e .serviceNotFound next))
  /-- The call that runs looks at the view next. -/
  | looks (mem : e ∈ s.parting)

section Dooming

variable {s s' : Midturn σ} {e : EntryId}

theorem Node.mem_changedMembers {members : List Member}
    (h : ⟨e, some .serviceNotFound⟩ ∈ members) : e ∈ changedMembers members :=
  List.mem_map.mpr ⟨_, List.mem_filter.mpr ⟨h, rfl⟩, rfl⟩

/-- A sweep does not forget what it was told. -/
theorem Doomed.of_told [Registry σ] (h : Sweeping s) (ho : Orderly s) (m : Move s s') {c : CallId}
    {forced : Bool} {members : List Member} (rests : (c, .pass forced members) ∈ s.node.calls)
    (mem : ⟨e, some .serviceNotFound⟩ ∈ members) : Doomed e s' := by
  obtain ⟨members', hsame, hpass⟩ := (m.stroke ho).of_pass ho rests
  have hmem : ⟨e, some .serviceNotFound⟩ ∈ members' := by
    rcases hsame with rfl | ⟨c', v, status, hrun, rfl⟩
    · exact mem
    · have hne : e ≠ v := by
        rintro rfl
        -- who has yet to report has told nothing so far
        have htracked := (h.passing (.resting rests)).tracked _ mem
        obtain ⟨-, hwaits, -⟩ := htracked.of_leg (Midturn.legs_of_refreshed hrun)
        cases hwaits
      exact List.mem_map.mpr ⟨_, mem, if_neg hne⟩
  rcases hpass with hrests | hrun
  · exact .told hrests hmem
  · apply Doomed.looks
    rw [Midturn.parting, hrun]
    exact Node.mem_changedMembers hmem

/-- Who has found a view gone tells its sweep or looks at the view itself. -/
theorem Doomed.of_refreshed [Registry σ] (h : Sweeping s) (hpublic : s.Public) (ho : Orderly s)
    (m : Move s s') {c : CallId} {next : AfterRefresh}
    (run : s.running = some (c, .refreshed e .serviceNotFound next)) : Doomed e s' := by
  have hprivate : next.isPrivate = false := hpublic.running run
  -- the sweep that the refresh was made for rests, with the view among its members
  have reported {sweep : CallId} {forced : Bool} {members : List Member} (hnext : next = .member sweep)
      (rests : s.node.stage? sweep = some (.pass forced members)) :
      ⟨e, some .serviceNotFound⟩ ∈ Node.reported members e .serviceNotFound := by
    subst hnext
    obtain ⟨members', all, m, hpass, hm, rfl⟩ := h.member_of_leg (Midturn.legs_of_refreshed run)
    cases hpass with
    | resting rests' =>
      cases ho.stage_unique rests' (Node.mem_of_stage? rests)
      exact List.mem_map.mpr ⟨m, hm, if_pos rfl⟩
    | closing run' =>
      rw [run] at run'
      cases run'
  rcases s with ⟨n, running, k⟩
  cases run
  cases m with
  | quiet q =>
    cases q with
    | turn hturn =>
      cases next with
      | status => cases hprivate
      | _ => cases hturn
  | endFirst n c k e status next =>
    apply Doomed.looks
    cases next with
    | done => cases hprivate
    | _ => exact List.mem_singleton_self e
  | member rests hmore => exact .told (Node.mem_rest_self ..) (reported rfl rests)
  | lastMember rests hall => exact .looks (Node.mem_changedMembers (reported rfl rests))
  | @stray n c k e status sweep hno =>
    obtain ⟨members, all, m, hpass, -⟩ := h.member_of_leg (Midturn.legs_of_refreshed rfl)
    cases hpass with
    | resting rests => exact absurd (ho.stage?_eq rests) (hno _ members)
    | closing run => cases run

/-- **What is doomed stays doomed with every move, or is evicted.** -/
theorem Doomed.move [Registry σ] (h : Doomed e s) (hr : Regular s) (hs : Sweeping s)
    (hpublic : s.Public) (gone : (s.node.entry e).status = .serviceNotFound) (m : Move s s') :
    Doomed e s' ∨ ∃ l ∈ s'.node.journal, l.what = .evicted e := by
  have ho := hr.sound.orderly
  cases h with
  | told rests mem => exact .inl (.of_told hs ho m rests mem)
  | refreshed run => exact .inl (.of_refreshed hs hpublic ho m run)
  | looks mem => exact .inr (m.evicted_of_parting hr.filed mem gone)

/-- A view comes to be gone by a refresh only. -/
theorem Move.of_gone [Registry σ] (m : Move s s') (hs : Sound s)
    (gone : (s'.node.entry e).status = .serviceNotFound) :
    (s.node.entry e).status = .serviceNotFound ∨
      ∃ c next, s'.running = some (c, .refreshed e .serviceNotFound next) := by
  rcases m.apart_or_touch hs.orderly with ha | ht
  · exact .inl ((ha.status e).symm.trans gone)
  · cases ht with
    | wake | askNow | ask => exact .inl gone
    | forget n c k v =>
      exact .inl ((n.entry_modifyEntry_congr Entry.status v e (f := Entry.forgetRevision) rfl).symm.trans
        gone)
    | @create n c k key next =>
      replace gone : ((n.directory.create key).entry e).status = .serviceNotFound := gone
      rw [Directory.entry_create] at gone
      split at gone
      · cases gone
      · exact .inl gone
    | beginFirst | endFirst | lock | wait =>
      exact .inl ((Node.entry_modifyEntry_congr Entry.status _ _ e rfl).symm.trans gone)
    | hear n c k v o next =>
      by_cases hv : e = v
      · subst hv
        have he : e < n.directory.entries.length := hs.inLine.lt_length rfl
        rw [n.entry_settled c o next he] at gone
        have hstatus : (n.outcomeOn e o).2 = .serviceNotFound := by
          rw [← gone]
          simp only [Node.outcomeOn]
          rw [Entry.afterRefresh_fst]
        exact .inr ⟨c, next, by rw [hstatus]⟩
      · rw [n.entry_settled_of_ne c o next hv] at gone
        exact .inl gone
    | apply n c k v change next =>
      by_cases hv : e = v
      · subst hv
        have he : e < n.directory.entries.length := hs.inLine.lt_length rfl
        rw [n.entry_applyChange c change he] at gone
        replace gone := (Entry.status_afterChange ..).symm.trans gone
        cases hverdict : ((n.entry e).afterChange n.directory.options.policy change).2 with
        | none =>
          rw [hverdict] at gone
          exact .inl gone
        | some status =>
          rw [hverdict, Option.getD_some] at gone
          subst gone
          cases Entry.afterChange_ne_gone _ _ _ hverdict
      · rw [n.entry_applyChange_of_ne c change hv] at gone
        exact .inl gone

end Dooming

/-! ### The cache stays tidy -/

/-- The views have valid keys, and what is gone and was never evicted is doomed. -/
structure Tidy (s : Midturn σ) : Prop where
  regular : Regular s
  sweeping : Sweeping s
  shared : s.Public
  valid : ∀ {e}, e < s.node.directory.entries.length → (s.node.entry e).key.check = .ok ()
  doomed : ∀ {e}, (s.node.entry e).status = .serviceNotFound →
    (∀ l ∈ s.node.journal, l.what ≠ .evicted e) → Doomed e s

theorem Move.valid [Registry σ] {s s' : Midturn σ} (m : Move s s') (ho : Orderly s) {e : EntryId}
    (he : e < s'.node.directory.entries.length) :
    e < s.node.directory.entries.length ∨ (s'.node.entry e).key.check = .ok () := by
  rcases m.apart_or_touch ho with ha | ht
  · exact .inl (ha.length ▸ he)
  · cases ht with
    | wake | askNow | ask => exact .inl he
    | forget | beginFirst | endFirst | lock | wait =>
      exact .inl (Nat.lt_of_lt_of_eq he (Node.length_modifyEntry ..))
    | hear | apply =>
      exact .inl (Nat.lt_of_lt_of_eq he
        ((Node.length_modifyEntry ..).trans (Node.length_modifyEntry ..)))
    | @create n c k key next valid =>
      replace he : e < (n.directory.create key).entries.length := he
      rw [Directory.length_create] at he
      rcases Nat.lt_succ_iff_lt_or_eq.mp he with hlt | rfl
      · exact .inl hlt
      · right
        show ((n.directory.create key).entry n.directory.entries.length).key.check = .ok ()
        rw [Directory.entry_create, if_pos rfl]
        exact valid

namespace Tidy

/-- **Every move leaves the cache tidy, unless it begins a private refresh.** -/
theorem move [Registry σ] {s s' : Midturn σ} (h : Tidy s) (m : Move s s') (hpublic : s'.Public) :
    Tidy s' where
  regular := h.regular.move m
  sweeping := h.sweeping.move h.regular m
  shared := hpublic
  valid {e} he := by
    have ho := h.regular.sound.orderly
    rcases m.valid ho he with hlt | hnew
    · rw [m.key ho hlt]
      exact h.valid hlt
    · exact hnew
  doomed {e} hgone hkept := by
    have hsuffix := m.journal_suffix h.regular.sound.orderly
    -- it was gone before, or this is the end of the refresh that found it gone
    rcases m.of_gone h.regular.sound hgone with hbefore | ⟨c, next, hrun⟩
    · have hdoomed := h.doomed hbefore fun l hl => hkept l (hsuffix.subset hl)
      rcases hdoomed.move h.regular h.sweeping h.shared hbefore m with hlater | ⟨l, hl, hwhat⟩
      · exact hlater
      · exact absurd hwhat (hkept l hl)
    · exact .refreshed hrun

theorem pass {n : Node σ} {time : Nat} (h : Tidy (⟨n, none, none⟩ : Midturn σ))
    (hle : n.time ≤ time) : Tidy (⟨{ n with time }, none, none⟩ : Midturn σ) where
  regular := h.regular.pass hle
  sweeping := h.sweeping.pass time
  shared := ⟨h.shared.calls, nofun⟩
  valid := h.valid
  doomed hgone hkept := by
    cases h.doomed hgone hkept with
    | told rests mem => exact .told rests mem
    | refreshed run => cases run
    | looks mem => cases mem

theorem of_untouched {n : Node σ} (untouched : n.Untouched) (empty : n.directory.entries = []) :
    Tidy (⟨n, none, none⟩ : Midturn σ) where
  regular := .of_untouched untouched empty
  sweeping := .of_untouched untouched
  shared := ⟨by simp [untouched.calls], nofun⟩
  valid he := by simp [empty] at he
  doomed {e} hgone := by
    rw [(untouched.entry e).2.1] at hgone
    cases hgone

/-- **One turn of any call leaves the cache tidy, unless it is to refresh a view privately.** -/
theorem act [Registry σ] {n : Node σ} (h : Tidy (⟨n, none, none⟩ : Midturn σ)) {a : Node.Act σ}
    (shared : a.isPrivate = false) : Tidy (⟨n.act a, none, none⟩ : Midturn σ) := by
  -- only the first move of a turn begins an operation
  have goOn {s s' : Midturn σ} (onward : Onward s s') (h : Tidy s) : Tidy s' :=
    onward.keeps (I := Tidy) (fun busy h m => h.move m (h.shared.move m busy)) h
  cases a with
  | call op =>
    have hpublic : Midturn.Public ⟨n.newCall.2, some (n.nextCall, .starting op), none⟩ :=
      h.shared.of_run (List.Subset.refl _) shared
    exact goOn (moves_starting n.newCall.2 n.nextCall op) (h.move (.call n op) hpublic)
  | callAfter wait op =>
    apply h.move (.callAfter n wait op)
    exact h.shared.of_rest (n := n.newCall.2) (List.Subset.refl _) shared
  | resume c =>
    show Tidy (⟨if n.isAwake c then n.resume c else n, none, none⟩ : Midturn σ)
    split
    · rename_i hawake
      obtain ⟨st, rests, awake, onward⟩ := moves_resume n c hawake
      exact goOn onward (h.move (.wake rests awake) (h.shared.wake rests))
    · exact h
  | pass ms => exact h.pass (Nat.le_add_right ..)

theorem follow [Registry σ] {n : Node σ} (h : Tidy (⟨n, none, none⟩ : Midturn σ))
    (acts : List (Node.Act σ)) (shared : ∀ a ∈ acts, a.isPrivate = false) :
    Tidy (⟨n.follow acts, none, none⟩ : Midturn σ) := by
  induction acts generalizing n with
  | nil => exact h
  | cons a acts ih =>
    apply ih (h.act (shared a List.mem_cons_self))
    intro b hb
    exact shared b (List.mem_cons_of_mem _ hb)

end Tidy

/-! ### What is cached -/

/-- Whether an operation is under way at a stage.  None is before its time to start, and a
    sleeper or the puller does nothing meanwhile. -/
def Stage.isUnderway : Stage σ → Bool
  | .scheduled .. | .sleeping _ | .pulling .. => false
  | _ => true

namespace Node

/-- No operation is under way. -/
def Idle (n : Node σ) : Prop := ∀ x ∈ n.calls, x.2.isUnderway = false

/-- The view `e` shows a service that was there at last. -/
structure Alive (n : Node σ) (e : EntryId) : Prop where
  initialized : (n.entry e).isInitialized = true
  begun : (n.entry e).status ≠ .initial
  present : (n.entry e).status ≠ .serviceNotFound

/-- Somebody is going to make the view `e` alive or to drop it. -/
inductive Attended (n : Node σ) (e : EntryId) : Prop where
  /-- Its first refresh has not been answered. -/
  | first {c due o next} (rests : (c, .fetching e due o (.first next)) ∈ n.calls)
      (running : (n.entry e).firstRefresh = .running)
  /-- A sweep found it gone and waits for its other members. -/
  | gone {c forced members} (rests : (c, .pass forced members) ∈ n.calls)
      (told : ⟨e, some .serviceNotFound⟩ ∈ members)

theorem Attended.not_idle {n : Node σ} {e : EntryId} (h : n.Attended e) : ¬ n.Idle := by
  intro idle
  cases h with
  | first rests => cases idle _ rests
  | gone rests => cases idle _ rests

end Node

theorem Tidy.alive_or_attended {n : Node σ} (h : Tidy (⟨n, none, none⟩ : Midturn σ)) {e : EntryId}
    (he : e < n.directory.entries.length) (kept : ∀ l ∈ n.journal, l.what ≠ .evicted e) :
    n.Alive e ∨ n.Attended e := by
  have hfirst := h.regular.first e he
  rcases hfirst.rest_cases with ⟨c, due, o, next, hc, running, -⟩ | ⟨hover, -⟩
  · exact .inr (.first hc running)
  · by_cases hgone : (n.entry e).status = .serviceNotFound
    · right
      cases h.doomed hgone kept with
      | told rests mem => exact .gone rests mem
      | refreshed run => cases run
      | looks mem => cases mem
    · left
      obtain ⟨hbegun, -⟩ := hfirst.ended_of_over hover
      exact ⟨beq_iff_eq.mpr hover, hbegun, hgone⟩

/-- **Every view is cached under its own key, which is valid, and shows a service that was there
    at last, once no operation is under way; until then somebody attends to it.** -/
theorem cached_views_alive [Registry σ] {start : Node σ} (untouched : start.Untouched)
    (empty : start.directory.entries = []) (acts : List (Node.Act σ))
    (shared : ∀ a ∈ acts, a.isPrivate = false) {key : ServiceKey} {e : EntryId}
    (cached : (key, e) ∈ (start.follow acts).directory.cached) :
    let n := start.follow acts
    key.check = .ok () ∧ (n.entry e).key = key ∧ n.directory.find? key = some e ∧
      (n.Alive e ∨ n.Attended e) ∧ (n.Idle → n.Alive e) := by
  intro n
  have tidy := (Tidy.of_untouched untouched empty).follow acts shared
  have filed : Filed n := tidy.regular.filed
  obtain ⟨hlt, hkey, hkept⟩ := filed.made cached
  have hvalid : (n.entry e).key.check = .ok () := tidy.valid hlt
  have hcases : n.Alive e ∨ n.Attended e := tidy.alive_or_attended hlt hkept
  refine ⟨hkey ▸ hvalid, hkey, filed.find?_eq_some_iff.mpr ⟨hlt, hkey, hkept⟩, hcases, ?_⟩
  intro idle
  rcases hcases with halive | hattended
  · exact halive
  · exact absurd idle hattended.not_idle

/-! ### A sweep that drops what it found gone -/

namespace Tidied

/-- The sweep has found that the orders are gone and waits for the users. -/
def sweeping : List (Node.Act Script) :=
  [.call (.find Return.orders), .call (.find Return.users), .call .sweep]

/-- The users have answered. -/
def swept : List (Node.Act Script) := sweeping ++ [.pass 50, .resume 4]

end Tidied

/-- The orders stay cached while the sweep attends to them, and then only the users do. -/
theorem gone_view_attended_then_dropped :
    (Return.start.Untouched ∧ Return.start.directory.entries = [] ∧
      (∀ a ∈ Tidied.swept, a.isPrivate = false) ∧
      (Return.orders, 0) ∈ (Return.start.follow Tidied.sweeping).directory.cached ∧
      (Return.users, 1) ∈ (Return.start.follow Tidied.swept).directory.cached ∧
      (Return.start.follow Tidied.swept).Idle) ∧
    (Return.start.follow Tidied.sweeping).Attended 0 ∧
    (Return.start.follow Tidied.swept).Alive 1 ∧
    (Return.start.follow Tidied.swept).directory.find? Return.orders = none := by
  have untouched : Return.start.Untouched := Node.untouched_caching ..
  have shared : ∀ a ∈ Tidied.swept, a.isPrivate = false := by decide
  have shared' : ∀ a ∈ Tidied.sweeping, a.isPrivate = false :=
    fun a ha => shared a (List.mem_append_left _ ha)
  have orders : (Return.orders, 0) ∈ (Return.start.follow Tidied.sweeping).directory.cached := by
    decide
  have users : (Return.users, 1) ∈ (Return.start.follow Tidied.swept).directory.cached := by
    decide
  have idle : (Return.start.follow Tidied.swept).Idle := by
    have hcalls : (Return.start.follow Tidied.swept).calls = [] := rfl
    simp [Node.Idle, hcalls]
  obtain ⟨-, -, -, cases, -⟩ := cached_views_alive untouched rfl Tidied.sweeping shared' orders
  obtain ⟨-, -, -, -, alive⟩ := cached_views_alive untouched rfl Tidied.swept shared users
  have gone : ((Return.start.follow Tidied.sweeping).entry 0).status = .serviceNotFound := by
    decide
  refine ⟨⟨untouched, rfl, shared, orders, users, idle⟩, ?_, alive idle, by decide⟩
  exact cases.resolve_left fun halive => halive.present gone

end ServiceFinder
