/-
  ServiceFinder/Proofs/Node/Watching.lean
  =======================================
  **The watcher is told exactly what changed.**

  What a call does to a view stands in the journal under the name of the call that did it.
  Every line that somebody is to be told of is that of a call that has begun (`Attributed`): a
  move writes such a line only for a call that has an audience, and only the beginning of a
  turn finds a call one.  With the account of each call (`Reckoned`) this gives both
  directions: the watcher hears of nothing but changes, and no view comes to list other
  servers without it.
-/
import ServiceFinder.Proofs.Node.Telling

namespace ServiceFinder

variable {σ : Type}

/-! ### Who made a change -/

/-- Whether whoever did this is among the calls `K`. -/
def Happening.MadeBy (K : CallId → Audience → Prop) : Happening → Prop
  | .refreshed c _ .status _ _ _ => K c .caller
  | .refreshed _ _ (.member sweep) _ _ _ => K sweep .watcher
  | .changed c _ _ _ => ∃ a, K c a
  | _ => True

section Makers

variable {K K' : CallId → Audience → Prop} {s s' : Midturn σ}

theorem Happening.MadeBy.mono {h : Happening} (hm : h.MadeBy K) (hK : ∀ c a, K c a → K' c a) :
    h.MadeBy K' := by
  cases h with
  | refreshed c e next o status guarded =>
    cases next with
    | status => exact hK _ _ hm
    | first next => trivial
    | member sweep => exact hK _ _ hm
  | changed c e change verdict => exact hm.imp fun a => hK c a
  | _ => trivial

theorem Happening.Due.madeBy {h : Happening} (hdue : h.Due s) (hK : ∀ c a, s.Owes c a → K c a) :
    h.MadeBy K := by
  cases h with
  | refreshed c e next o status guarded =>
    cases next with
    | status => exact hK _ _ (.inr hdue)
    | first next => trivial
    | member sweep =>
      obtain ⟨forced, members, rests⟩ := hdue
      exact hK _ _ (.inl ⟨_, rests, rfl⟩)
  | changed c e change verdict => exact hdue.imp fun a hruns => hK c a (.inr hruns)
  | _ => trivial

/-- The calls `K` are all that owe anything to anyone, and all that the journal tells is theirs. -/
structure Attributed (K : CallId → Audience → Prop) (s : Midturn σ) : Prop where
  owes : ∀ c a, s.Owes c a → K c a
  made : ∀ l ∈ s.node.journal, l.what.MadeBy K

namespace Attributed

variable [Registry σ]

theorem onward (h : Attributed K s) (ha : Audited s) (onward : Onward s s') : Attributed K s' := by
  suffices Audited s' ∧ Attributed K s' from this.2
  refine onward.keeps (I := fun s => Audited s ∧ Attributed K s) ?_ ⟨ha, h⟩
  rintro s s' busy ⟨ha, h⟩ m
  obtain ⟨lines, hj, hdue⟩ := m.due ha.sweeping
  refine ⟨ha.move m, fun c a howes => h.owes c a (m.owes busy howes), ?_⟩
  rw [hj]
  intro l hl
  rcases List.mem_append.mp hl with hl | hl
  · exact (hdue l hl).madeBy h.owes
  · exact h.made l hl

/-- Only calls that begin in a turn are new to it. -/
theorem act {n : Node σ} (h : Attributed K (⟨n, none, none⟩ : Midturn σ))
    (ha : Audited (⟨n, none, none⟩ : Midturn σ)) (act : Node.Act σ)
    (hK : ∀ c a, K c a → K' c a)
    (hbegun : ∀ {c op a}, n.beginner? act = some (c, op) → op.audience? = some a → K' c a) :
    Attributed K' (⟨n.act act, none, none⟩ : Midturn σ) := by
  have hmade : ∀ l ∈ n.journal, l.what.MadeBy K' := fun l hl => (h.made l hl).mono hK
  have hrests {c : CallId} {st : Stage σ} {a : Audience} (hc : (c, st) ∈ n.calls)
      (hst : st.audience? = some a) : K' c a := hK c a (h.owes c a (.inl ⟨st, hc, hst⟩))
  have same : Attributed K' (⟨n, none, none⟩ : Midturn σ) :=
    ⟨fun c a howes => hK c a (h.owes c a howes), hmade⟩
  cases act with
  | call op =>
    refine Attributed.onward (s := ⟨n.newCall.2, some (n.nextCall, .starting op), none⟩)
      ⟨?_, hmade⟩ (ha.move (.call n op)) (moves_starting ..)
    rintro c a (⟨st, hc, hst⟩ | ⟨p, hrun, hp⟩)
    · exact hrests hc hst
    · cases hrun
      exact hbegun rfl hp
  | callAfter wait op =>
    refine ⟨?_, hmade⟩
    rintro c a (⟨st, hc, hst⟩ | ⟨p, hrun, -⟩)
    · rcases Node.mem_rest.mp hc with hc | ⟨-, rfl⟩
      · exact hrests hc hst
      · cases hst
    · cases hrun
  | resume c' =>
    show Attributed K' (⟨if n.isAwake c' then n.resume c' else n, none, none⟩ : Midturn σ)
    split
    · rename_i hawake
      obtain ⟨st', rests, awake, onward⟩ := moves_resume n c' hawake
      refine Attributed.onward ⟨?_, hmade⟩ (ha.move (.wake rests awake)) onward
      rintro c a (⟨st, hc, hst⟩ | ⟨p, hrun, hp⟩)
      · exact hrests (Node.mem_unrest.mp hc).1 hst
      · cases hrun
        by_cases hstarts : ∃ due op, st' = .scheduled due op
        · obtain ⟨due, op, rfl⟩ := hstarts
          have hdue : due ≤ n.time := of_decide_eq_true awake
          exact hbegun (Node.beginner?_of_scheduled rests hdue) hp
        · have hsame := Stage.audience?_point fun due op heq => hstarts ⟨due, op, heq⟩
          exact hrests (Node.mem_of_stage? rests) (hsame.symm.trans hp)
    · exact same
  | pass ms => exact ⟨same.owes, hmade⟩

end Attributed

end Makers

/-! ### Whose change the watcher hears of -/

section Changes

variable {e : EntryId} {key : ServiceKey} {l : Listing} {what : Happening}
  {K : CallId → Audience → Prop}

/-- Only a refresh or a change that counts as one gives a view other servers. -/
theorem Happening.refreshed_of_relist (h : (what.relist key e l).instances ≠ l.instances) :
    (∃ c next o guarded, what = .refreshed c e next o .refreshed guarded) ∨
      ∃ c change, what = .changed c e change (some .refreshed) := by
  cases what with
  | refreshed c v next o status guarded =>
    rcases o with (new | _ | _) | _
    · by_cases hv : v = e
      · by_cases hstatus : status = .refreshed
        · subst hv hstatus
          exact .inl ⟨c, next, _, guarded, rfl⟩
        · exact absurd (by simp [relist, hv, hstatus]) h
      · exact absurd (by simp [relist, hv]) h
    all_goals exact absurd rfl h
  | changed c v change verdict =>
    by_cases hv : v = e
    · subst hv
      by_cases hverdict : verdict = some .refreshed
      · subst hverdict
        exact .inr ⟨c, change, rfl⟩
      · refine absurd ?_ h
        simp only [relist, if_true]
        split
        · rfl
        · exact absurd rfl hverdict
        · rfl
    · exact absurd (by simp [relist, hv]) h
  | forgot v => exact absurd (by simp only [relist]; split <;> rfl) h
  | _ => exact absurd rfl h

/-- Where nobody refreshes or changes views on their own, a call that gives a view other servers
    after its first refresh owes the watcher that view. -/
theorem Happening.MadeBy.outcomeIn? (hm : what.MadeBy K) (hK : ∀ c, ¬ K c .caller)
    (h : (what.relist key e l).instances ≠ l.instances) :
    what.endsFirst e = true ∨ ∃ c, K c .watcher ∧ what.outcomeIn? c = some (e, .refreshed) := by
  rcases Happening.refreshed_of_relist h with ⟨c, next, o, guarded, rfl⟩ | ⟨c, change, rfl⟩
  · cases next with
    | status => exact absurd hm (hK c)
    | first next => exact .inl (beq_self_eq_true e)
    | member sweep => exact .inr ⟨sweep, hm, if_pos rfl⟩
  · obtain ⟨a, ha⟩ := hm
    cases a with
    | caller => exact absurd ha (hK c)
    | watcher => exact .inr ⟨c, ha, if_pos rfl⟩

end Changes

/-- This line gave the view `e` other servers. -/
def JournalLine.Relists (line : JournalLine) (key : ServiceKey) (e : EntryId)
    (before : List JournalLine) : Prop :=
  (listingAfter key e (line :: before)).instances ≠ (listingAfter key e before).instances

/-- Whether who holds a view asks for this, to be told alone. -/
def Operation.isForHolder (op : Operation σ) : Bool :=
  op.audience? == some .caller

namespace Node

variable [Registry σ] {start : Node σ} {acts : List (Act σ)} {c : CallId}

theorem attributed_follow (untouched : start.Untouched) (empty : start.directory.entries = [])
    (acts : List (Act σ)) :
    Attributed (start.Begun acts) (⟨start.follow acts, none, none⟩ : Midturn σ) := by
  induction acts using List.reverseRecOn with
  | nil =>
    constructor
    · rintro c a (⟨st, hc, -⟩ | ⟨p, hrun, -⟩)
      · simp [follow, untouched.calls] at hc
      · cases hrun
    · intro l hl
      simp [follow, untouched.journal] at hl
  | append_singleton acts act ih =>
    rw [follow_concat]
    exact ih.act (audited_follow untouched empty acts) act (fun c a h => h.concat act)
      fun h hop => begun_of_begins h hop

omit [Registry σ] in
theorem not_isForHolder_of_beginner? {n : Node σ} {act : Act σ} {op : Operation σ}
    (lacks : Midturn.Lacks Operation.isForHolder ⟨n, none, none⟩)
    (unasked : act.asksFor Operation.isForHolder = false) (h : n.beginner? act = some (c, op)) :
    op.isForHolder = false := by
  rcases beginner?_cases h with ⟨rfl, -⟩ | ⟨rfl, due, rests, -⟩
  · exact unasked
  · exact lacks.later (mem_of_stage? rests)

/-- If nobody asks for it, no call begins to refresh or change a view on its own. -/
theorem not_begun_caller (untouched : start.Untouched)
    (unasked : ∀ a ∈ acts, a.asksFor Operation.isForHolder = false) (c : CallId) :
    ¬ start.Begun acts c .caller := by
  rintro ⟨before, act, after, op, rfl, hbegins, hop⟩
  have lacks : Midturn.Lacks Operation.isForHolder (⟨start, none, none⟩ : Midturn σ) := by
    refine ⟨fun hc => ?_, nofun⟩
    simp [untouched.calls] at hc
  have lacks' : Midturn.Lacks Operation.isForHolder ⟨start.follow before, none, none⟩ :=
    lacks_follow rfl lacks fun a ha => unasked a (List.mem_append_left _ ha)
  have hnot := not_isForHolder_of_beginner? lacks' (unasked act (by simp)) hbegins
  simp [Operation.isForHolder, hop] at hnot

/-- By the time the call `c` answers, the watcher of that moment has been told that the view `e`
    changed. -/
def Covered (start : Node σ) (acts : List (Act σ)) (c : CallId) (e : EntryId) : Prop :=
  (start.follow acts).Pending c ∨ ∃ watcher? views, start.Announced acts c watcher? ∧
    noticesOf c (start.follow acts).journal = noticeFor watcher? views ∧ e ∈ views

theorem Announced.covers {watcher? : Option Watcher} {line : JournalLine} {e : EntryId}
    (h : start.Announced acts c watcher?) (hl : line ∈ (start.follow acts).journal)
    (houtcome : line.what.outcomeIn? c = some (e, .refreshed)) :
    ∃ watcher? views, start.Announced acts c watcher? ∧
      noticesOf c (start.follow acts).journal = noticeFor watcher? views ∧ e ∈ views := by
  have hannounced := h
  obtain ⟨before, act, after, -, -, -, -, hreckoned⟩ := h
  obtain ⟨views, -, hviews, hnotices⟩ := hreckoned.told
  have hmem : (e, .refreshed) ∈ outcomesIn c (start.follow acts).journal :=
    List.mem_filterMap.mpr ⟨line, hl, houtcome⟩
  exact ⟨watcher?, views, hannounced, hnotices, (hviews e).mpr ⟨.refreshed, hmem, rfl⟩⟩

end Node

/-- **The watcher is told exactly what changed.**  A sweep or a pushed change tells nobody before
    it answers, and then the watcher of that moment, once, of each view that it changed.  Every
    view lists what the journal tells; unless holders of views refresh or change them on their
    own, each line that gave it other servers is that of its first refresh or of a call that
    tells the watcher of it. -/
theorem watcher_told_what_changed [Registry σ] {start : Node σ} (untouched : start.Untouched)
    (empty : start.directory.entries = []) (acts : List (Node.Act σ)) :
    (∀ c, start.Begun acts c .watcher →
      (start.follow acts).Pending c ∨ ∃ watcher?, start.Announced acts c watcher?) ∧
    ∀ e, ((start.follow acts).entry e).listing =
        listingAfter ((start.follow acts).entry e).key e (start.follow acts).journal ∧
      ((∀ a ∈ acts, a.asksFor Operation.isForHolder = false) → ∀ after line before,
        (start.follow acts).journal = after ++ line :: before →
        line.Relists ((start.follow acts).entry e).key e before →
        line.what.endsFirst e = true ∨
          ∃ c, start.Begun acts c .watcher ∧ line.what.outcomeIn? c = some (e, .refreshed) ∧
            start.Covered acts c e) := by
  have haudited := Node.audited_follow untouched empty acts
  have htold (c : CallId) (h : start.Begun acts c .watcher) :
      (start.follow acts).Pending c ∨ ∃ watcher?, start.Announced acts c watcher? :=
    (Node.owes_or_announced untouched empty h).imp (Node.pending_of_owes haudited) And.left
  refine ⟨htold, fun e => ⟨(haudited.regular.sound.told e).listing, ?_⟩⟩
  intro unasked after line before hj hrelists
  have hline : line ∈ (start.follow acts).journal := by simp [hj]
  have hmade := (Node.attributed_follow untouched empty acts).made line hline
  rcases hmade.outcomeIn? (Node.not_begun_caller untouched unasked) hrelists with
    hfirst | ⟨c, hbegun, houtcome⟩
  · exact .inl hfirst
  · refine .inr ⟨c, hbegun, houtcome, ?_⟩
    exact (htold c hbegun).imp id fun ⟨watcher?, hannounced⟩ => hannounced.covers hline houtcome

/-! ### A sweep and a change that overlap -/

namespace Watched

def key (service : String) : ServiceKey := ⟨"shop", "store", service, everyVersion⟩

def server (id : String) : Instance := { instanceId := id, serviceId := "v1", endpoints := [] }

def found (revision : String) (ids : List String) : Answer := .found ⟨ids.map server, some revision⟩

/-- The orders have lost a server, and after 50 milliseconds it turns out that the users are
    gone. -/
def start : Node Script :=
  .caching ⟨[(key "orders", [⟨found "1" ["a", "b"], 0⟩, ⟨found "2" ["a"], 0⟩]),
    (key "users", [⟨found "1" ["c"], 0⟩, ⟨.notFound, 50⟩])]⟩ {} .retainNonEmpty

def up : InstanceChange := .about "store" "orders" .create (server "d")

/-- While the sweep waits for the users, another server of the orders comes up. -/
def acts : List (Node.Act Script) :=
  [.call (.watch (.named "w")), .call (.find (key "orders")), .call (.find (key "users")),
    .call .sweep, .pass 10, .call (.change up), .pass 40, .resume 5]

def swept : Node Script := start.follow acts

def pushed : JournalLine := ⟨10, .changed 6 0 up (some .refreshed)⟩

/-- What the journal tells since the change, and what it told before. -/
def newer : List JournalLine := swept.journal.take 5

def older : List JournalLine := swept.journal.drop 6

theorem journal_swept : swept.journal = newer ++ pushed :: older := by
  decide

theorem relists_pushed : pushed.Relists (swept.entry 0).key 0 older := by
  unfold JournalLine.Relists
  decide

theorem unasked : ∀ a ∈ acts, a.asksFor Operation.isForHolder = false := by
  simp [acts, Node.Act.asksFor, Operation.isForHolder, Operation.audience?]

theorem begun_sweep : start.Begun acts 3 .watcher :=
  ⟨acts.take 3, .call .sweep, acts.drop 4, .sweep, rfl, rfl, rfl⟩

end Watched

/-- The sweep tells of both views, the change of the one that it was about. -/
theorem overlapping_change_announced :
    (Watched.start.Untouched ∧ Watched.start.directory.entries = [] ∧
      (∀ a ∈ Watched.acts, a.asksFor Operation.isForHolder = false) ∧
      Watched.swept.journal = Watched.newer ++ Watched.pushed :: Watched.older ∧
      Watched.pushed.Relists (Watched.swept.entry 0).key 0 Watched.older) ∧
    (∃ watcher?, Watched.start.Announced Watched.acts 3 watcher?) ∧
    noticesOf 3 Watched.swept.journal = [(.named "w", [0, 1])] ∧
    (∃ c, Watched.start.Begun Watched.acts c .watcher ∧
      Watched.pushed.what.outcomeIn? c = some (0, .refreshed) ∧
      Watched.start.Covered Watched.acts c 0) ∧
    noticesOf 6 Watched.swept.journal = [(.named "w", [0])] := by
  have untouched : Watched.start.Untouched := Node.untouched_caching ..
  have hsweep : noticesOf 3 Watched.swept.journal = [(.named "w", [0, 1])] := by decide
  obtain ⟨told, views⟩ := watcher_told_what_changed untouched rfl Watched.acts
  have announced : ∃ watcher?, Watched.start.Announced Watched.acts 3 watcher? := by
    refine (told 3 Watched.begun_sweep).resolve_left fun pending => ?_
    exact absurd (hsweep.symm.trans pending.silent) (by simp)
  have covered := (views 0).2 Watched.unasked _ _ _ Watched.journal_swept Watched.relists_pushed
  exact ⟨⟨untouched, rfl, Watched.unasked, Watched.journal_swept, Watched.relists_pushed⟩,
    announced, hsweep, covered.resolve_left (by decide), by decide⟩

end ServiceFinder
