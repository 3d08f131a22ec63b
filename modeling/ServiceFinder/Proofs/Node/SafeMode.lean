/-
  ServiceFinder/Proofs/Node/SafeMode.lean
  =======================================
  **Safe mode reaches every view and keeps every list.**

  The flag of safe mode is kept twice: by the directory, for views that are still to be made,
  and by each view, which looks at its own when a list is about to become empty, long after the
  lookup for it began.  A view takes the flag over when it is made and is told of every switch
  while it is cached, whatever its first refresh has come to.  So as long as nobody sets the
  flag of a view alone, both are equal whenever a view decides; and a view that decides under
  protection gives away its last instance neither to an answer nor to a pushed change.
-/
import ServiceFinder.Proofs.Node.Evicting
import ServiceFinder.Proofs.Node.Moments

namespace ServiceFinder

variable {σ : Type}

/-! ### Who sets flags -/

/-- Whether an operation sets the flag of one view alone. -/
def Operation.protectsView : Operation σ → Bool
  | .protectView .. => true
  | _ => false

/-- Whether an operation ends safe mode. -/
def Operation.endsSafeMode : Operation σ → Bool
  | .safeMode on => !on
  | _ => false

/-! ### What leaves all flags alone -/

/-- All flags stay, nothing is cached anew, and no view that refuses an empty list is left
    without instances. -/
structure Directory.Keeps (d d' : Directory) : Prop where
  flag : d'.protection = d.protection
  cached : d'.cached ⊆ d.cached
  entry : ∀ e, (d.entry e).Keeps d.options.policy (d'.entry e)

namespace Directory.Keeps

variable {d d' : Directory}

/-- The views stay as they are. -/
theorem of_entries (entries : d'.entries = d.entries) (flag : d'.protection = d.protection)
    (cached : d'.cached ⊆ d.cached) : d.Keeps d' where
  flag := flag
  cached := cached
  entry e := .of_eq (by simp only [Directory.entry, entries]) (by simp only [Directory.entry, entries])

theorem refl (d : Directory) : d.Keeps d := of_entries rfl rfl (List.Subset.refl _)

/-- One view is edited. -/
theorem of_modify (d : Directory) (e : EntryId) {f : Entry → Entry}
    (hf : (d.entry e).Keeps d.options.policy (f (d.entry e))) : d.Keeps (d.modify e f) where
  flag := rfl
  cached := List.Subset.refl _
  entry v := by
    rw [d.entry_modify]
    split
    · rename_i heq
      rw [heq.1]
      exact hf
    · exact .of_eq rfl rfl

/-- Handing a write lock on is no edit. -/
theorem releaseWriter (h : d.Keeps d') (e : EntryId) :
    d.Keeps (d'.modify e fun x => { x with writers := x.writers.tail }) where
  flag := h.flag
  cached := h.cached
  entry v := by
    rw [d'.entry_modify]
    split
    · rename_i heq
      rw [heq.1]
      exact ⟨(h.entry e).protection, (h.entry e).instances⟩
    · exact h.entry v

end Directory.Keeps

namespace Node

theorem keeps_evictIfGone (n : Node σ) (e : EntryId) :
    n.directory.Keeps (n.evictIfGone e).directory := by
  unfold evictIfGone evict
  split
  · split
    · exact .of_entries rfl rfl (List.filter_sublist.subset)
    · exact .refl _
  · exact .refl _

theorem keeps_publish (n : Node σ) (c : CallId) (changed : List EntryId) :
    n.directory.Keeps (n.publish c changed).directory := by
  have evicted (views : List EntryId) (n : Node σ) :
      (views.foldl evictIfGone n).directory.protection = n.directory.protection ∧
        (views.foldl evictIfGone n).directory.cached ⊆ n.directory.cached := by
    induction views generalizing n with
    | nil => exact ⟨rfl, List.Subset.refl _⟩
    | cons v views ih =>
      have hkeeps := n.keeps_evictIfGone v
      exact ⟨(ih _).1.trans hkeeps.flag, List.Subset.trans (ih _).2 hkeeps.cached⟩
  rw [publish, directory_notify]
  exact .of_entries (n.still_evictAll changed).entries (evicted changed n).1 (evicted changed n).2

theorem keeps_settled (n : Node σ) (c : CallId) (e : EntryId) (o : Outcome)
    (next : AfterRefresh) : n.directory.Keeps (n.settled c e o next).directory :=
  (Directory.Keeps.of_modify n.directory e (Entry.keeps_afterRefresh ..)).releaseWriter e

theorem keeps_applyChange (n : Node σ) (c : CallId) (e : EntryId) (change : InstanceChange) :
    n.directory.Keeps (n.applyChange c e change).2.directory :=
  (Directory.Keeps.of_modify n.directory e (Entry.keeps_afterChange ..)).releaseWriter e

end Node

theorem Quiet.keeps {c : CallId} {n n' : Node σ} {p p' : Point σ} (q : Quiet c n p n' p') :
    n.directory.Keeps n'.directory := by
  cases q with
  | turn | find | sweepTaken | sweepNone => exact .refl _
  | sweepFree | forceFree => exact .of_entries rfl rfl (List.Subset.refl _)
  | aside h =>
    rw [(Node.rest_of_aside h).1]
    exact .refl _
  | view e => exact n.keeps_evictIfGone e
  | choose e i =>
    rw [(Node.rest_of_choice (n.evictIfGone e) e i).1]
    exact n.keeps_evictIfGone e
  | close forced members =>
    have hpublished := n.keeps_publish c (Node.changedMembers members)
    exact ⟨hpublished.flag, hpublished.cached, hpublished.entry⟩
  | publish change changed => exact n.keeps_publish c changed

/-! ### Every move -/

/-- What a move does to the flags and lists of views. -/
inductive Midturn.Flags (s s' : Midturn σ) : Prop where
  | keeps (keeps : s.node.directory.Keeps s'.node.directory)
  | creates {key} (directory : s'.node.directory = s.node.directory.create key)
  | switches {c on} (run : s.running = some (c, .starting (.safeMode on)))
      (directory : s'.node.directory = s.node.directory.protect on)
  | protects {c e on} (run : s.running = some (c, .starting (.protectView e on)))
      (directory : s'.node.directory = s.node.directory.modify e ({ · with protection := on }))

/-- **A move keeps flags and lists, makes a view, switches all flags, or sets one.** -/
theorem Move.flags [Registry σ] {s s' : Midturn σ} (m : Move s s') : s.Flags s' := by
  cases m with
  | call | callAfter | wake | answer | sleep | stopPuller | tick | awaitFirst | askNow | ask
  | sweepSome | enlist | enlisted | member | lastMember | stray =>
    exact .keeps (.refl _)
  | forceWait => exact .keeps (.of_entries rfl rfl (List.Subset.refl _))
  | startPuller n c k interval =>
    rw [n.startPuller_eq]
    exact .keeps (.refl _)
  | quiet q => exact .keeps q.keeps
  | protect n c k on => exact .switches rfl rfl
  | protectView n c k e on => exact .protects rfl rfl
  | create => exact .creates rfl
  | forget n c k e | beginFirst | endFirst n c k e | lock | wait =>
    exact .keeps (.of_modify _ _ (.of_eq rfl rfl))
  | hear n c k e o next => exact .keeps (n.keeps_settled c e o next)
  | apply n c k e change | applyNext n c k e change =>
    exact .keeps (n.keeps_applyChange c e change)

namespace Node

/-- Every cached view has the flag of its directory. -/
def Uniform (n : Node σ) : Prop :=
  ∀ e ∈ n.directory.views, (n.entry e).protection = n.directory.protection

/-- The view `e` is protected and has instances to lose. -/
structure Shielded (n : Node σ) (e : EntryId) : Prop where
  guarded : (n.entry e).protection = true
  listed : (n.entry e).listing.instances ≠ []

end Node

/-- No call is going to set the flag of one view alone. -/
abbrev Midturn.Shared (s : Midturn σ) : Prop := s.Lacks Operation.protectsView

theorem Filed.lt_length {n : Node σ} (h : Filed n) {e : EntryId} (cached : e ∈ n.directory.views) :
    e < n.directory.entries.length := by
  obtain ⟨x, hx, rfl⟩ := List.mem_map.mp cached
  exact (h.made hx).1

/-- **No move leaves a cached view with another flag than the directory.** -/
theorem Node.Uniform.move [Registry σ] {s s' : Midturn σ} (h : s.node.Uniform)
    (filed : Filed s.node) (shared : s.Shared) (m : Move s s') : s'.node.Uniform := by
  intro e he
  show (s'.node.directory.entry e).protection = s'.node.directory.protection
  cases m.flags with
  | keeps hkeeps =>
    rw [(hkeeps.entry e).protection, hkeeps.flag]
    exact h e (List.map_subset _ hkeeps.cached he)
  | creates hd =>
    simp only [Directory.views, hd, Directory.create, List.map_append, List.map_cons, List.map_nil,
      List.mem_append, List.mem_singleton] at he
    rw [hd, Directory.entry_create]
    split
    · rfl
    · rename_i hne
      exact h e (he.resolve_right hne)
  | switches run hd =>
    rw [Directory.views, hd, Directory.cached_protect] at he
    rw [hd, Directory.entry_protect, if_pos ⟨he, filed.lt_length he⟩, Directory.protection_protect]
  | protects run hd => cases shared.now run

/-- **While the flag is on no move takes its last instance from a protected view.** -/
theorem Node.Shielded.move [Registry σ] {s s' : Midturn σ} {e : EntryId} (h : s.node.Shielded e)
    (policy : s.node.directory.options.policy = .retainNonEmpty) (shared : s.Shared)
    (on : s'.node.directory.protection = true) (m : Move s s') : s'.node.Shielded e := by
  have refuses : (s.node.entry e).refusesEmpty s.node.directory.options.policy = true :=
    policy ▸ Entry.refusesEmpty_retainNonEmpty _ h.guarded h.listed
  have hlt : e < s.node.directory.entries.length := by
    apply Directory.lt_length_of_ne_default
    intro hdefault
    have hlisted := h.listed
    rw [Node.entry, hdefault] at hlisted
    exact hlisted rfl
  cases m.flags with
  | keeps hkeeps =>
    have hentry := hkeeps.entry e
    exact ⟨hentry.protection.trans h.guarded, hentry.instances refuses h.listed⟩
  | creates hd =>
    have hentry : s'.node.entry e = s.node.entry e := by
      rw [Node.entry, hd, Directory.entry_create, if_neg (Nat.ne_of_lt hlt)]
      rfl
    exact ⟨hentry ▸ h.guarded, hentry ▸ h.listed⟩
  | @switches c flag run hd =>
    rw [hd, Directory.protection_protect] at on
    subst on
    have hlisted := Directory.entry_protect_congr (fun x : Entry => x.listing.instances)
      (fun _ _ => rfl) s.node.directory true e
    rw [← hd] at hlisted
    refine ⟨?_, fun hnil => h.listed (hlisted.symm.trans hnil)⟩
    rw [Node.entry, hd, Directory.entry_protect]
    split
    · rfl
    · exact h.guarded
  | protects run hd => cases shared.now run

/-! ### Runs -/

/-- What holds on a run on which nobody sets the flag of one view alone. -/
structure Midturn.Governed (policy : EmptyListPolicy) (s : Midturn σ) : Prop where
  orderly : Orderly s
  filed : Filed s.node
  uniform : s.node.Uniform
  policy : s.node.directory.options.policy = policy

namespace Midturn.Governed

variable {policy : EmptyListPolicy}

theorem of_untouched {n : Node σ} (untouched : n.Untouched) (empty : n.directory.entries = []) :
    Governed n.directory.options.policy ⟨n, none, none⟩ where
  orderly := (Sound.of_untouched untouched).orderly
  filed := (Booked.of_untouched untouched empty).filed
  uniform e he := by
    rw [Directory.views, untouched.cached] at he
    cases he
  policy := rfl

theorem move [Registry σ] {s s' : Midturn σ} (h : s.Governed policy) (shared : s.Shared)
    (m : Move s s') : s'.Governed policy where
  orderly := h.orderly.move m
  filed := h.filed.move m
  uniform := h.uniform.move h.filed shared m
  policy := (congrArg Options.policy (m.options h.orderly)).trans h.policy

theorem pass {n : Node σ} (h : Governed policy ⟨n, none, none⟩) (time : Nat) :
    Governed policy ⟨{ n with time }, none, none⟩ where
  orderly := ⟨h.orderly.nodup, h.orderly.below⟩
  filed := h.filed.of_views rfl rfl rfl
  uniform := h.uniform
  policy := h.policy

end Midturn.Governed

namespace Node

variable [Registry σ]

omit [Registry σ] in
theorem lacks_of_quiescent {kind : Operation σ → Bool} {n : Node σ} (quiescent : n.Quiescent) :
    Midturn.Lacks kind ⟨n, none, none⟩ where
  later hc := by
    rw [quiescent] at hc
    cases hc
  now := nofun

/-- Safe mode stays on until somebody ends it. -/
theorem throughout_safeMode {n : Node σ} {acts : List (Act σ)}
    (lacks : Midturn.Lacks Operation.endsSafeMode ⟨n, none, none⟩)
    (unasked : ∀ a ∈ acts, a.asksFor Operation.endsSafeMode = false)
    (on : n.directory.protection = true) :
    n.Throughout (·.node.directory.protection = true) acts := by
  refine (Throughout.keeps (I := (·.node.directory.protection = true)) rfl ?_ (fun _ h => h)
    (n.throughout_true acts) lacks unasked on).mono fun _ h => h.2
  intro s s' hlacks _ on m
  cases m.flags with
  | keeps hkeeps => exact hkeeps.flag.trans on
  | creates hd => exact (congrArg Directory.protection hd).trans on
  | protects run hd => exact (congrArg Directory.protection hd).trans on
  | @switches c flag run hd =>
    have hflag : flag = true := by simpa [Operation.endsSafeMode] using hlacks.now run
    rw [hd, Directory.protection_protect]
    exact hflag

/-- **Safe mode reaches every view and keeps every list.**

    Unless somebody sets the flag of one view alone, all cached views have the flag of the
    directory, at every moment of any run; and where empty lists are suspicious that replace
    instances, a cached view that has instances keeps some for as long as safe mode is on. -/
theorem safe_mode_protects {start : Node σ} (untouched : start.Untouched)
    (empty : start.directory.entries = []) (acts : List (Act σ))
    (shared : ∀ a ∈ acts, a.asksFor Operation.protectsView = false) :
    start.Throughout (·.node.Uniform) acts ∧
      (start.directory.options.policy = .retainNonEmpty →
        ∀ {before during}, acts = before ++ during →
          (start.follow before).Throughout (·.node.directory.protection = true) during →
          ∀ {e}, e ∈ (start.follow before).directory.views →
            ((start.follow before).entry e).listing.instances ≠ [] →
            (start.follow before).Throughout
              (fun s => (s.node.entry e).listing.instances ≠ []) during) := by
  have governed (acts : List (Act σ))
      (shared : ∀ a ∈ acts, a.asksFor Operation.protectsView = false) :
      start.Throughout (fun s => s.Shared ∧ s.Governed start.directory.options.policy) acts :=
    Throughout.keeps rfl (fun hshared _ h m => h.move hshared m) (fun _ h => h.pass _)
      (start.throughout_true acts) (lacks_of_quiescent untouched.calls) shared
      (.of_untouched untouched empty)
  refine ⟨(governed acts shared).mono fun _ h => h.2.uniform, ?_⟩
  rintro policy before during rfl on e cached listed
  obtain ⟨hshared, hgoverned⟩ :=
    (governed before fun a ha => shared a (List.mem_append_left _ ha)).last
  have hguarded : ((start.follow before).entry e).protection = true :=
    (hgoverned.uniform e cached).trans on.first
  have hshielded : (start.follow before).Throughout (fun s => s.Shared ∧
      s.Governed start.directory.options.policy ∧ s.node.Shielded e) during := by
    refine Throughout.keeps
      (I := fun s => s.Governed start.directory.options.policy ∧ s.node.Shielded e) rfl ?_ ?_ on
      hshared (fun a ha => shared a (List.mem_append_right _ ha)) ⟨hgoverned, hguarded, listed⟩
    · intro s s' hshared on ⟨hg, hs⟩ m
      exact ⟨hg.move hshared m, hs.move (hg.policy.trans policy) hshared on m⟩
    · intro n time _ ⟨hg, hs⟩
      exact ⟨hg.pass time, hs.guarded, hs.listed⟩
  exact hshielded.mono fun _ h => h.2.2.listed

namespace Toggled

def key : ServiceKey := ⟨"shop", "store", "orders", everyVersion⟩

def server : Instance := { instanceId := "a", serviceId := "v1", endpoints := [] }

/-- The registry takes its time to name the only server, and then it names none. -/
def start : Node Script :=
  .caching ⟨[(key, [⟨.found ⟨[server], some "1"⟩, 50⟩, ⟨.found ⟨[], some "2"⟩, 0⟩])]⟩ {}
    .retainNonEmpty

/-- Safe mode begins while the orders are looked up for the first time. -/
def finding : List (Act Script) := [.call (.find key), .call (.safeMode true)]

def before : List (Act Script) := finding ++ [.pass 50, .resume 0]

/-- A refresh brings an empty list, and the server is said to be gone. -/
def during : List (Act Script) :=
  [.call (.refresh 0), .call (.change (.about "store" "orders" .delete server))]

end Toggled

/-- The view is told of safe mode during its first refresh, and neither the empty list nor the
    change takes its only instance. -/
theorem toggled_view_keeps_its_server :
    (Toggled.start.Untouched ∧ Toggled.start.directory.entries = [] ∧
      (∀ a ∈ Toggled.before ++ Toggled.during,
        a.asksFor Operation.protectsView = false) ∧
      Toggled.start.directory.options.policy = .retainNonEmpty ∧
      (Toggled.start.follow Toggled.before).Throughout (·.node.directory.protection = true)
        Toggled.during ∧
      0 ∈ (Toggled.start.follow Toggled.before).directory.views ∧
      ((Toggled.start.follow Toggled.before).entry 0).listing.instances = [Toggled.server]) ∧
    ((Toggled.start.follow Toggled.finding).entry 0).firstRefresh = .running ∧
    Toggled.start.Throughout (·.node.Uniform) (Toggled.before ++ Toggled.during) ∧
    (Toggled.start.follow Toggled.before).Throughout
      (fun s => (s.node.entry 0).listing.instances ≠ []) Toggled.during := by
  have untouched : Toggled.start.Untouched := untouched_caching ..
  have shared : ∀ a ∈ Toggled.before ++ Toggled.during,
      a.asksFor Operation.protectsView = false := by decide
  have quiescent : (Toggled.start.follow Toggled.before).Quiescent := rfl
  have on : (Toggled.start.follow Toggled.before).Throughout
      (·.node.directory.protection = true) Toggled.during :=
    throughout_safeMode (lacks_of_quiescent quiescent) (by decide) (by decide)
  have cached : 0 ∈ (Toggled.start.follow Toggled.before).directory.views := by decide
  have listed : ((Toggled.start.follow Toggled.before).entry 0).listing.instances =
      [Toggled.server] := by decide
  obtain ⟨uniform, keeps⟩ := safe_mode_protects untouched rfl _ shared
  exact ⟨⟨untouched, rfl, shared, rfl, on, cached, listed⟩, by decide, uniform,
    keeps rfl rfl on cached (by rw [listed]; exact List.cons_ne_nil _ _)⟩

end Node

end ServiceFinder
