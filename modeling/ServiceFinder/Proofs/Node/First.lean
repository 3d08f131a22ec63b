/-
  ServiceFinder/Proofs/Node/First.lean
  ====================================
  **Every view has one first refresh.**

  A view is made by the call that goes on to make its first refresh, in the same turn.
  Nobody can come between: the view is new, so its line is empty and its lookup begins at
  once.  From then on the call either waits for the answer (`First.fetching`) or the first
  refresh is over for good; the other phases pass in the middle of a turn.
-/
import ServiceFinder.Proofs.Node.Filing

namespace ServiceFinder

variable {σ : Type}

/-! ### First refreshes in a journal -/

/-- Whether a happening is the beginning of a lookup for the first refresh of `e`. -/
def Happening.asksFirst (e : EntryId) : Happening → Bool
  | .fetchBegan _ v (.first _) => v == e
  | _ => false

/-- Whether a happening is the end of the first refresh of `e`. -/
def Happening.endsFirst (e : EntryId) : Happening → Bool
  | .refreshed _ v (.first _) _ _ _ => v == e
  | _ => false

/-- How often the first refresh of the view `e` has begun. -/
def firstAsks (e : EntryId) (journal : List JournalLine) : Nat :=
  journal.countP (·.what.asksFirst e)

/-- How often the first refresh of the view `e` has ended. -/
def firstEnds (e : EntryId) (journal : List JournalLine) : Nat :=
  journal.countP (·.what.endsFirst e)

/-- Whether the lookup for a first refresh of the view `e` is open. -/
def opensFirst (e : EntryId) (journal : List JournalLine) : Bool :=
  match openFetch e journal with
  | some (_, .first _) => true
  | _ => false

theorem Happening.first_of_not_locks {e : EntryId} {h : Happening} (hlocks : h.locks? ≠ some e) :
    h.asksFirst e = false ∧ h.endsFirst e = false := by
  cases h with
  | fetchBegan c v next =>
    have hne : v ≠ e := fun heq => hlocks (congrArg some heq)
    cases next with
    | first => exact ⟨beq_eq_false_iff_ne.mpr hne, rfl⟩
    | _ => exact ⟨rfl, rfl⟩
  | refreshed c v next o status guarded =>
    have hne : v ≠ e := fun heq => hlocks (congrArg some heq)
    cases next with
    | first => exact ⟨rfl, beq_eq_false_iff_ne.mpr hne⟩
    | _ => exact ⟨rfl, rfl⟩
  | _ => exact ⟨rfl, rfl⟩

/-- A first refresh that has begun has ended or is open. -/
theorem Serial.firstEnds_add {e : EntryId} {journal : List JournalLine} (h : Serial e journal) :
    firstEnds e journal + (opensFirst e journal).toNat = firstAsks e journal := by
  induction journal with
  | nil => rfl
  | cons line before ih =>
    have hbefore := ih h.1
    by_cases hlocks : line.what.locks? = some e
    · rcases line with ⟨time, what⟩
      cases what with
      | fetchBegan c v next =>
        obtain rfl : v = e := Option.some.inj hlocks
        have hnone : openFetch v before = none := h.2 rfl
        cases next <;>
          simp_all [firstEnds, firstAsks, opensFirst, openFetch, Happening.asksFirst,
            Happening.endsFirst]
      | refreshed c v next o status guarded =>
        obtain rfl : v = e := Option.some.inj hlocks
        have hopen : openFetch v before = some (c, next) := h.2 rfl
        cases next <;>
          simp_all [firstEnds, firstAsks, opensFirst, openFetch, Happening.asksFirst,
            Happening.endsFirst]
      | changed c v change verdict => exact hbefore
      | _ => cases hlocks
    · obtain ⟨hasks, hends⟩ := Happening.first_of_not_locks hlocks
      have hopen : opensFirst e (line :: before) = opensFirst e before := by
        rw [opensFirst, openFetch_cons_of_not_locks hlocks, opensFirst]
      simpa [firstEnds, firstAsks, hasks, hends, hopen] using hbefore

theorem Happening.view?_of_asksFirst {e : EntryId} {h : Happening} (hasks : h.asksFirst e = true) :
    h.view? = some e := by
  cases h with
  | fetchBegan c v next =>
    cases next with
    | first next => exact congrArg some (beq_iff_eq.mp hasks)
    | _ => cases hasks
  | _ => cases hasks

theorem firstAsks_append {e : EntryId} {lines before : List JournalLine}
    (h : ∀ l ∈ lines, l.what.asksFirst e = false) :
    firstAsks e (lines ++ before) = firstAsks e before := by
  have hnone : lines.countP (·.what.asksFirst e) = 0 :=
    List.countP_eq_zero.mpr fun l hl => by simp [h l hl]
  rw [firstAsks, List.countP_append, hnone, Nat.zero_add]
  rfl

theorem firstAsks_cons {e : EntryId} {line : JournalLine} {before : List JournalLine}
    (h : line.what.asksFirst e = false) : firstAsks e (line :: before) = firstAsks e before := by
  simp [firstAsks, h]

/-! ### Phases -/

/-- The call `c` rests in the line for the write lock of `e`, to make its first refresh. -/
structure Midturn.Waits (s : Midturn σ) (e : EntryId) (c : CallId) (st : Stage σ) : Prop where
  rests : (c, st) ∈ s.node.calls
  first : st.first? = some e
  line : c ∈ (s.node.entry e).writers

/-- `due` is not past what a lookup may take that began when the view `e` was made. -/
def Node.DueBy (n : Node σ) (e : EntryId) (due : Nat) : Prop :=
  ∀ l ∈ n.journal, l.what = .created e → due ≤ l.time + n.directory.options.fetchTimeout

/-- The first refresh of the view `e` had ended by then. -/
def Node.FirstEnded (n : Node σ) (e : EntryId) (time : Nat) : Prop :=
  ∃ l ∈ n.journal, l.time ≤ time ∧ l.what.endsFirst e = true

/-- How far the first refresh of a view has come. -/
inductive First (e : EntryId) (s : Midturn σ) : Prop where
  /-- The view has just been made. -/
  | made {c next} (run : s.running = some (c, .ensuring e next))
      (flag : (s.node.entry e).firstRefresh = .pending) (free : (s.node.entry e).writers = [])
      (asks : firstAsks e s.node.journal = 0)
      (fresh : ∀ l ∈ s.node.journal, l.what = .created e → l.time = s.node.time)
  | lining {c next} (run : s.running = some (c, .lining e (.refresh (.first next))))
      (flag : (s.node.entry e).firstRefresh = .running) (free : (s.node.entry e).writers = [])
      (asks : firstAsks e s.node.journal = 0)
      (fresh : ∀ l ∈ s.node.journal, l.what = .created e → l.time = s.node.time)
  | asking {c next} (run : s.running = some (c, .asking e (.first next)))
      (flag : (s.node.entry e).firstRefresh = .running) (none : ∀ c st, ¬ s.Waits e c st)
      (asks : firstAsks e s.node.journal = 0)
      (fresh : ∀ l ∈ s.node.journal, l.what = .created e → l.time = s.node.time)
  /-- The registry has been asked and has not answered. -/
  | fetching {c due o next} (rests : (c, .fetching e due o (.first next)) ∈ s.node.calls)
      (flag : (s.node.entry e).firstRefresh = .running) (idle : ∀ c, s.first? ≠ some (c, e))
      (only : ∀ c st, s.Waits e c st → st.holds? = some e)
      (asks : firstAsks e s.node.journal = 1) (dueBy : s.node.DueBy e due)
  | heard {c o next} (run : s.running = some (c, .heard e o (.first next)))
      (flag : (s.node.entry e).firstRefresh = .running) (none : ∀ c st, ¬ s.Waits e c st)
      (asks : firstAsks e s.node.journal = 1)
  | refreshed {c status next} (run : s.running = some (c, .refreshed e status (.first next)))
      (flag : (s.node.entry e).firstRefresh = .running) (none : ∀ c st, ¬ s.Waits e c st)
      (asks : firstAsks e s.node.journal = 1) (status : (s.node.entry e).status ≠ .initial)
      (ended : s.node.FirstEnded e s.node.time)
  | past (flag : (s.node.entry e).firstRefresh = .over) (idle : ∀ c, s.first? ≠ some (c, e))
      (none : ∀ c st, ¬ s.Waits e c st) (asks : firstAsks e s.node.journal = 1)
      (status : (s.node.entry e).status ≠ .initial) (ended : s.node.FirstEnded e s.node.time)

/-- What happens from `s` to `s'` is not about the first refresh of `e`. -/
structure Beside (e : EntryId) (s s' : Midturn σ) : Prop where
  idle : ∀ c, s.first? ≠ some (c, e)
  idle' : ∀ c, s'.first? ≠ some (c, e)
  /-- The view is not one that was just made. -/
  settled : ∀ {c next}, s.running = some (c, .ensuring e next) →
    (s.node.entry e).firstRefresh ≠ .pending
  flag : (s'.node.entry e).firstRefresh = (s.node.entry e).firstRefresh
  status : (s.node.entry e).status ≠ .initial → (s'.node.entry e).status ≠ .initial
  options : s'.node.directory.options = s.node.directory.options
  time : s.node.time ≤ s'.node.time
  calls : ∀ {c due o next}, (c, .fetching e due o (.first next)) ∈ s.node.calls →
    (c, .fetching e due o (.first next)) ∈ s'.node.calls
  waits : ∀ {c st}, s'.Waits e c st → s.Waits e c st
  journal : ∃ lines, s'.node.journal = lines ++ s.node.journal ∧
    ∀ l ∈ lines, l.what.asksFirst e = false ∧ l.what ≠ .created e

theorem Midturn.first?_ne {n : Node σ} {c : CallId} {p : Point σ}
    {k : Option (CallId × Bool × List EntryId)} {e : EntryId} (h : p.first? ≠ some e)
    (c' : CallId) : Midturn.first? ⟨n, some (c, p), k⟩ ≠ some (c', e) := by
  intro heq
  simp only [Midturn.first?_some, Option.map_eq_some_iff, Prod.mk.injEq] at heq
  obtain ⟨v, hv, -, rfl⟩ := heq
  exact h hv

namespace First

variable {s s' : Midturn σ} {e : EntryId}

/-- What is not about the first refresh of a view leaves it as far as it has come. -/
theorem keep (h : First e s) (b : Beside e s s') : First e s' := by
  obtain ⟨lines, hj, hl⟩ := b.journal
  have hasks : firstAsks e s'.node.journal = firstAsks e s.node.journal := by
    rw [hj, firstAsks_append fun l hmem => (hl l hmem).1]
  cases h with
  | made run hflag => exact absurd hflag (b.settled run)
  | lining run => exact absurd (by rw [Midturn.first?, run]; rfl) (b.idle _)
  | asking run => exact absurd (by rw [Midturn.first?, run]; rfl) (b.idle _)
  | heard run => exact absurd (by rw [Midturn.first?, run]; rfl) (b.idle _)
  | refreshed run => exact absurd (by rw [Midturn.first?, run]; rfl) (b.idle _)
  | fetching rests hflag _ only asks dueBy =>
    refine .fetching (b.calls rests) (b.flag.trans hflag) b.idle'
      (fun c st hw => only c st (b.waits hw)) (hasks.trans asks) ?_
    intro l hmem hwhat
    rw [b.options]
    rw [hj] at hmem
    rcases List.mem_append.mp hmem with hmem | hmem
    · exact absurd hwhat (hl l hmem).2
    · exact dueBy l hmem hwhat
  | past hflag _ none asks hstatus ended =>
    obtain ⟨l, hl, hle, hended⟩ := ended
    exact .past (b.flag.trans hflag) b.idle' (fun c st hw => none c st (b.waits hw))
      (hasks.trans asks) (b.status hstatus)
      ⟨l, hj ▸ List.mem_append_right _ hl, Nat.le_trans hle b.time, hended⟩

/-- The first refresh of a view is as far as before when time has passed. -/
theorem pass {n : Node σ} {time : Nat} (h : First e (⟨n, none, none⟩ : Midturn σ))
    (hle : n.time ≤ time) : First e (⟨{ n with time }, none, none⟩ : Midturn σ) :=
  h.keep
    { idle := by simp
      idle' := by simp
      settled := by simp
      flag := rfl
      status := id
      options := rfl
      time := hle
      calls := id
      waits := fun hw => ⟨hw.rests, hw.first, hw.line⟩
      journal := ⟨[], rfl, by simp⟩ }

theorem of_apart (h : First e s) (ha : Apart s s') : First e s' := by
  apply h.keep
  constructor
  case idle => simp [ha.aside.first]
  case idle' => simp [ha.aside'.first]
  case settled => exact ha.ensuring
  case flag => exact ha.firstRefresh e
  case status => exact fun hne => ha.status e ▸ hne
  case options => exact ha.options
  case time => exact Nat.le_of_eq ha.time.symm
  case calls => exact (ha.calls rfl).mpr
  case waits =>
    intro c st hw
    exact ⟨(ha.calls (Stage.line?_of_first? hw.first)).mp hw.rests, hw.first,
      ha.writers e ▸ hw.line⟩
  case journal =>
    obtain ⟨lines, hj, hl⟩ := ha.journal
    refine ⟨lines, hj, fun l hmem => ⟨Bool.eq_false_iff.mpr ?_, ?_⟩⟩
    · intro hasks
      cases (hl l hmem).symm.trans (Happening.view?_of_asksFirst hasks)
    · intro hwhat
      have hv := hl l hmem
      rw [hwhat] at hv
      cases hv

/-- At rest, the first refresh is under way or over. -/
theorem rest_cases {n : Node σ} {k : Option (CallId × Bool × List EntryId)}
    (h : First e ⟨n, none, k⟩) :
    (∃ c due o next, (c, .fetching e due o (.first next)) ∈ n.calls ∧
      (n.entry e).firstRefresh = .running ∧ n.DueBy e due) ∨
      (n.entry e).firstRefresh = .over ∧ ∀ c st, ¬ Midturn.Waits ⟨n, none, k⟩ e c st := by
  cases h with
  | fetching rests flag _ _ _ dueBy => exact .inl ⟨_, _, _, _, rests, flag, dueBy⟩
  | past flag _ none => exact .inr ⟨flag, none⟩
  | made run => cases run
  | lining run => cases run
  | asking run => cases run
  | heard run => cases run
  | refreshed run => cases run

/-- Once the first refresh is over, the view has a status and the journal tells why. -/
theorem ended_of_over (h : First e s) (hover : (s.node.entry e).firstRefresh = .over) :
    (s.node.entry e).status ≠ .initial ∧ s.node.FirstEnded e s.node.time := by
  cases h with
  | past _ _ _ _ status ended => exact ⟨status, ended⟩
  | made _ flag => cases hover.symm.trans flag
  | lining _ flag => cases hover.symm.trans flag
  | asking _ flag => cases hover.symm.trans flag
  | heard _ flag => cases hover.symm.trans flag
  | refreshed _ flag => cases hover.symm.trans flag
  | fetching _ flag => cases hover.symm.trans flag

theorem asks_of_rest {n : Node σ} {k : Option (CallId × Bool × List EntryId)}
    (h : First e ⟨n, none, k⟩) : firstAsks e n.journal = 1 := by
  cases h with
  | fetching _ _ _ _ asks => exact asks
  | past _ _ _ asks => exact asks
  | made run => cases run
  | lining run => cases run
  | asking run => cases run
  | heard run => cases run
  | refreshed run => cases run

/-- At rest, the first refresh of a view has ended once if it is over, and else not yet. -/
theorem ends_of_rest {n : Node σ} (h : First e (⟨n, none, none⟩ : Midturn σ))
    (hs : Sound (⟨n, none, none⟩ : Midturn σ)) :
    firstEnds e n.journal = if (n.entry e).isInitialized then 1 else 0 := by
  have hadd := Serial.firstEnds_add (hs.told e).serial
  rw [h.asks_of_rest] at hadd
  rcases h.rest_cases with ⟨c, due, o, next, hc, hflag, -⟩ | ⟨hover, hnone⟩
  · have hopen : openFetch e n.journal = some (c, .first next) :=
      (hs.told e).fetch.mpr (.inl ⟨due, o, hc⟩)
    rw [opensFirst, hopen] at hadd
    rw [if_neg (by simp [Entry.isInitialized, hflag])]
    exact Nat.succ.inj hadd
  · have hclosed : opensFirst e n.journal = false := by
      unfold opensFirst
      split
      · rename_i c next hopen
        rcases (hs.told e).fetch.mp hopen with ⟨due, o, hc⟩ | ⟨o, hrun⟩
        · exact absurd ⟨hc, rfl, List.mem_of_head? (hs.inLine.resting hc rfl)⟩ (hnone c _)
        · cases hrun
      · rfl
    rw [hclosed] at hadd
    rw [if_pos (by simp [Entry.isInitialized, hover])]
    exact hadd

/-! ### The moves that touch a view -/

theorem wake {n : Node σ} {c : CallId} {st : Stage σ} {v : EntryId}
    (h : First e (⟨n, none, none⟩ : Midturn σ)) (hs : Sound (⟨n, none, none⟩ : Midturn σ))
    (rests : n.stage? c = some st) (awake : n.awake c st = true) (hline : st.line? = some v) :
    First e ⟨n.unrest c, some (c, st.point), none⟩ := by
  have hmem := Node.mem_of_stage? rests
  have hsub {c' : CallId} {st' : Stage σ}
      (hw : Midturn.Waits ⟨n.unrest c, some (c, st.point), none⟩ e c' st') :
      Midturn.Waits ⟨n, none, none⟩ e c' st' :=
    ⟨(Node.mem_unrest.mp hw.rests).1, hw.first, hw.line⟩
  by_cases hfirst : st.first? = some e
  · -- it is the call that makes the first refresh, so it wakes with the answer
    have hve : v = e := by
      rw [Stage.line?_of_first? hfirst] at hline
      exact (Option.some.inj hline).symm
    subst hve
    have hhead := hs.inLine.head?_of_awake rests awake hline
    have hwaits : Midturn.Waits (⟨n, none, none⟩ : Midturn σ) v c st :=
      ⟨hmem, hfirst, List.mem_of_head? hhead⟩
    cases h with
    | past _ _ none => exact absurd hwaits (none c st)
    | fetching hrests flag _ only asks dueBy =>
      have hholds := only c st hwaits
      have hc := hs.inLine.exclusive hmem hrests hholds rfl
      subst hc
      have hst := hs.orderly.stage_unique hmem hrests
      subst hst
      refine .heard rfl flag ?_ asks
      intro c' st' hw
      have hc' := hs.inLine.exclusive (hsub hw).rests hrests (only c' st' (hsub hw)) rfl
      exact (Node.mem_unrest.mp hw.rests).2 hc'
    | made run => cases run
    | lining run => cases run
    | asking run => cases run
    | heard run => cases run
    | refreshed run => cases run
  · have hkept {c' due o next} (hc : (c', .fetching e due o (.first next)) ∈ n.calls) :
        (c', .fetching e due o (.first next)) ∈ (n.unrest c).calls := by
      refine Node.mem_unrest.mpr ⟨hc, ?_⟩
      rintro rfl
      rw [hs.orderly.stage_unique hmem hc] at hfirst
      exact hfirst rfl
    exact h.keep
      { idle := by simp
        idle' := Midturn.first?_ne (by rwa [Stage.first?_point])
        settled := by simp
        flag := rfl
        status := id
        options := rfl
        time := Nat.le_refl _
        calls := hkept
        waits := hsub
        journal := ⟨[], rfl, by simp⟩ }

theorem create {n : Node σ} {c : CallId} {k : Option (CallId × Bool × List EntryId)}
    {key : ServiceKey} {next : AfterFirst}
    (h : e < n.directory.entries.length → First e ⟨n, some (c, .looking key next), k⟩)
    (hs : Sound (⟨n, some (c, .looking key next), k⟩ : Midturn σ))
    (he : e < (n.created key).directory.entries.length) {m : Measurement} :
    First e ⟨(n.created key).measure m, some (c, .ensuring n.directory.entries.length next),
      k⟩ := by
  have hlen : (n.created key).directory.entries.length = n.directory.entries.length + 1 :=
    n.directory.length_create key
  rw [hlen] at he
  rcases Nat.lt_succ_iff_lt_or_eq.mp he with hlt | rfl
  · have hne : e ≠ n.directory.entries.length := Nat.ne_of_lt hlt
    have hentry : ((n.created key).measure m).entry e = n.entry e :=
      (n.directory.entry_create key e).trans (if_neg hne)
    have hline : ((n.created key).entry e).writers = (n.entry e).writers :=
      congrArg Entry.writers hentry
    have hmade : Happening.created n.directory.entries.length ≠ .created e := by
      intro heq
      cases heq
      exact hne rfl
    exact (h hlt).keep
      { idle := by simp [Point.first?]
        idle' := by simp [Point.first?]
        settled := by simp
        flag := congrArg Entry.firstRefresh hentry
        status := fun hne => hentry ▸ hne
        options := rfl
        time := Nat.le_refl _
        calls := id
        waits := fun hw => ⟨hw.rests, hw.first, hline ▸ hw.line⟩
        journal := ⟨[⟨n.time, .created n.directory.entries.length⟩], rfl,
          by simpa [Happening.asksFirst] using hmade⟩ }
  · have hentry := (n.directory.entry_create key _).trans (if_pos rfl)
    have hforgot := (hs.told n.directory.entries.length).unmade (Nat.le_refl _)
    refine .made rfl (congrArg Entry.firstRefresh hentry) (congrArg Entry.writers hentry) ?_ ?_
    · have hnone : firstAsks n.directory.entries.length n.journal = 0 := by
        refine List.countP_eq_zero.mpr ?_
        intro l hl hasks
        have hwhat := hforgot l hl (Happening.view?_of_asksFirst hasks)
        rw [hwhat] at hasks
        cases hasks
      exact (firstAsks_cons rfl).trans hnone
    · intro l hl hwhat
      rcases List.mem_cons.mp hl with rfl | hl
      · rfl
      · cases (hforgot l hl (by rw [hwhat]; rfl)).symm.trans hwhat

theorem begin {n : Node σ} {c : CallId} {v : EntryId} {next : AfterFirst}
    {k : Option (CallId × Bool × List EntryId)} (h : First e ⟨n, some (c, .ensuring v next), k⟩)
    (he : e < n.directory.entries.length) (hflag : (n.entry v).firstRefresh = .pending) :
    First e ⟨n.modifyEntry v ({ · with firstRefresh := .running }),
      some (c, .lining v (.refresh (.first next))), k⟩ := by
  by_cases hv : v = e
  · subst hv
    have hentry := Node.entry_modifyEntry_self (fun x => { x with firstRefresh := .running }) he
    cases h with
    | made run flag free asks fresh =>
      exact .lining rfl (congrArg Entry.firstRefresh hentry)
        ((congrArg Entry.writers hentry).trans free) asks fresh
    | lining _ flag => cases hflag.symm.trans flag
    | asking _ flag => cases hflag.symm.trans flag
    | heard _ flag => cases hflag.symm.trans flag
    | refreshed _ flag => cases hflag.symm.trans flag
    | fetching _ flag => cases hflag.symm.trans flag
    | past flag => cases hflag.symm.trans flag
  · have hentry := Node.entry_modifyEntry_of_ne (n := n)
      (fun x => { x with firstRefresh := .running }) fun heq : e = v => hv heq.symm
    have hsettled {c' next'} (hrun : some (c, Point.ensuring v next) =
        some (c', (.ensuring e next' : Point σ))) : (n.entry e).firstRefresh ≠ .pending := by
      cases hrun
      exact absurd rfl hv
    exact h.keep
      { idle := by simp [Point.first?]
        idle' := by simp [Point.first?, AfterRefresh.firstOf?, hv]
        settled := hsettled
        flag := congrArg Entry.firstRefresh hentry
        status := fun hne => hentry ▸ hne
        options := rfl
        time := Nat.le_refl _
        calls := id
        waits := fun hw => ⟨hw.rests, hw.first, hentry ▸ hw.line⟩
        journal := ⟨[], rfl, by simp⟩ }

theorem finish {n : Node σ} {c : CallId} {v : EntryId} {next : AfterFirst} {status : CacheStatus}
    {k : Option (CallId × Bool × List EntryId)}
    (h : First e ⟨n, some (c, .refreshed v status (.first next)), k⟩)
    (he : e < n.directory.entries.length) :
    First e ⟨n.modifyEntry v ({ · with firstRefresh := .over }), some (c, .passed v next), k⟩ := by
  by_cases hv : v = e
  · subst hv
    have hentry := Node.entry_modifyEntry_self (fun x => { x with firstRefresh := .over }) he
    have hidle : Midturn.first? ⟨n, some (c, .refreshed v status (.first next)), k⟩ =
      some (c, v) := rfl
    cases h with
    | refreshed _ _ none asks hstatus ended =>
      refine .past (congrArg Entry.firstRefresh hentry) (by simp [Point.first?]) ?_
        asks ((congrArg Entry.status hentry).trans_ne hstatus) ended
      intro c' st hw
      exact none c' st ⟨hw.rests, hw.first, congrArg Entry.writers hentry ▸ hw.line⟩
    | made run => cases run
    | lining run => cases run
    | asking run => cases run
    | heard run => cases run
    | fetching _ _ idle => exact absurd hidle (idle c)
    | past _ idle => exact absurd hidle (idle c)
  · have hentry := Node.entry_modifyEntry_of_ne (n := n)
      (fun x => { x with firstRefresh := .over }) fun heq : e = v => hv heq.symm
    exact h.keep
      { idle := by simp [Point.first?, AfterRefresh.firstOf?, hv]
        idle' := by simp [Point.first?]
        settled := by simp
        flag := congrArg Entry.firstRefresh hentry
        status := fun hne => hentry ▸ hne
        options := rfl
        time := Nat.le_refl _
        calls := id
        waits := fun hw => ⟨hw.rests, hw.first, hentry ▸ hw.line⟩
        journal := ⟨[], rfl, by simp⟩ }

end First

/-- Who rests and stands in a line that a running call has joined stood there before. -/
theorem Orderly.mem_writers {n : Node σ} {c c' : CallId} {p : Point σ} {st : Stage σ}
    {e v : EntryId} {k : Option (CallId × Bool × List EntryId)}
    (ho : Orderly (⟨n, some (c, p), k⟩ : Midturn σ)) (hc : (c', st) ∈ n.calls)
    (hline : c' ∈ ((n.queueWriter c v).entry e).writers) : c' ∈ (n.entry e).writers := by
  rw [Node.writers_queueWriter] at hline
  split at hline
  · rename_i heq
    rcases List.mem_append.mp hline with hline | hline
    · exact heq.1 ▸ hline
    · cases List.mem_singleton.mp hline
      exact absurd hc (ho.notMem_calls rfl st)
  · exact hline

namespace First

variable {e : EntryId}

/-- The call that is to make the first refresh gets in line with nobody there. -/
theorem lining_cases {n : Node σ} {c : CallId} {next : AfterFirst}
    {k : Option (CallId × Bool × List EntryId)}
    (h : First e ⟨n, some (c, .lining e (.refresh (.first next))), k⟩) :
    (n.entry e).firstRefresh = .running ∧ (n.entry e).writers = [] ∧
      firstAsks e n.journal = 0 ∧
      ∀ l ∈ n.journal, l.what = .created e → l.time = n.time := by
  have hidle : Midturn.first? ⟨n, some (c, .lining e (.refresh (.first next))), k⟩ =
    some (c, e) := rfl
  cases h with
  | lining _ flag free asks fresh => exact ⟨flag, free, asks, fresh⟩
  | made run => cases run
  | asking run => cases run
  | heard run => cases run
  | refreshed run => cases run
  | fetching _ _ idle => exact absurd hidle (idle c)
  | past _ idle => exact absurd hidle (idle c)

/-- So it has the lock at once. -/
theorem writes_of_lining {n : Node σ} {c : CallId} {next : AfterFirst}
    {k : Option (CallId × Bool × List EntryId)}
    (h : First e ⟨n, some (c, .lining e (.refresh (.first next))), k⟩)
    (he : e < n.directory.entries.length) : (n.queueWriter c e).writes c e = true := by
  rw [Node.writes, beq_iff_eq, Node.writers_queueWriter, if_pos ⟨rfl, he⟩, h.lining_cases.2.1]
  rfl

theorem lock {n : Node σ} {c : CallId} {v : EntryId} {job : Job}
    {k : Option (CallId × Bool × List EntryId)} (h : First e ⟨n, some (c, .lining v job), k⟩)
    (ho : Orderly (⟨n, some (c, .lining v job), k⟩ : Midturn σ)) :
    First e ⟨n.queueWriter c v, some (c, job.point v), k⟩ := by
  have hflag := n.entry_modifyEntry_congr Entry.firstRefresh v e
    (f := fun x => { x with writers := x.writers ++ [c] }) rfl
  have hstatus := n.entry_modifyEntry_congr Entry.status v e
    (f := fun x => { x with writers := x.writers ++ [c] }) rfl
  have hpoint : (job.point v : Point σ).first? = Point.first? (.lining v job : Point σ) := by
    cases job <;> rfl
  by_cases hfirst : Point.first? (.lining v job : Point σ) = some e
  · cases job with
    | change => cases hfirst
    | refresh next =>
      cases next with
      | first next =>
        obtain rfl : v = e := Option.some.inj hfirst
        obtain ⟨flag, free, asks, fresh⟩ := h.lining_cases
        refine .asking rfl (hflag.trans flag) ?_ asks fresh
        intro c' st hw
        have hline := ho.mem_writers hw.rests hw.line
        rw [free] at hline
        cases hline
      | _ => cases hfirst
  · exact h.keep
      { idle := Midturn.first?_ne hfirst
        idle' := Midturn.first?_ne (hpoint ▸ hfirst)
        settled := by simp
        flag := hflag
        status := fun hne => hstatus ▸ hne
        options := rfl
        time := Nat.le_refl _
        calls := id
        waits := fun hw => ⟨hw.rests, hw.first, ho.mem_writers hw.rests hw.line⟩
        journal := ⟨[], rfl, by simp⟩ }

theorem wait {n : Node σ} {c : CallId} {v : EntryId} {job : Job}
    {k : Option (CallId × Bool × List EntryId)} (h : First e ⟨n, some (c, .lining v job), k⟩)
    (ho : Orderly (⟨n, some (c, .lining v job), k⟩ : Midturn σ))
    (he : e < n.directory.entries.length) (hbusy : (n.queueWriter c v).writes c v = false) :
    First e ⟨(n.queueWriter c v).rest c (job.stage v), none, k⟩ := by
  have hflag := n.entry_modifyEntry_congr Entry.firstRefresh v e
    (f := fun x => { x with writers := x.writers ++ [c] }) rfl
  have hstatus := n.entry_modifyEntry_congr Entry.status v e
    (f := fun x => { x with writers := x.writers ++ [c] }) rfl
  have hstage : (job.stage v : Stage σ).first? = Point.first? (.lining v job : Point σ) := by
    cases job <;> rfl
  by_cases hfirst : Point.first? (.lining v job : Point σ) = some e
  · -- nobody can be in front of the first refresh
    cases job with
    | change => cases hfirst
    | refresh next =>
      cases next with
      | first next =>
        obtain rfl : v = e := Option.some.inj hfirst
        rw [h.writes_of_lining he] at hbusy
        cases hbusy
      | _ => cases hfirst
  · have hwaits {c' st}
        (hw : Midturn.Waits ⟨(n.queueWriter c v).rest c (job.stage v), none, k⟩ e c' st) :
        Midturn.Waits ⟨n, some (c, .lining v job), k⟩ e c' st := by
      have hwf := hw.first
      rcases Node.mem_rest.mp hw.rests with hc | ⟨rfl, rfl⟩
      · exact ⟨hc, hwf, ho.mem_writers hc hw.line⟩
      · exact absurd (hstage.symm.trans hwf) hfirst
    exact h.keep
      { idle := Midturn.first?_ne hfirst
        idle' := by simp
        settled := by simp
        flag := hflag
        status := fun hne => hstatus ▸ hne
        options := rfl
        time := Nat.le_refl _
        calls := fun hc => Node.mem_rest.mpr (.inl hc)
        waits := hwaits
        journal := ⟨[], rfl, by simp⟩ }

theorem asksFirst_of_ne {c : CallId} {v : EntryId} {next : AfterRefresh}
    (h : next.firstOf? v ≠ some e) : (Happening.fetchBegan c v next).asksFirst e = false := by
  cases next with
  | first next => exact beq_eq_false_iff_ne.mpr fun hv => h (congrArg some hv)
  | _ => rfl

/-- A lookup begins that is not for the first refresh of `e`. -/
theorem ask_other [Registry σ] {n n' : Node σ} {c : CallId} {v : EntryId} {next : AfterRefresh}
    {r : Option (CallId × Point σ)} {k : Option (CallId × Bool × List EntryId)}
    (h : First e ⟨n, some (c, .asking v next), k⟩) (hfirst : next.firstOf? v ≠ some e)
    (hviews : n'.directory = n.directory) (htime : n'.time = n.time)
    (hjournal : n'.journal = ⟨n.time, .fetchBegan c v next⟩ :: n.journal)
    (idle' : ∀ c', Midturn.first? ⟨n', r, k⟩ ≠ some (c', e))
    (calls : ∀ {c' due o next'}, (c', .fetching e due o (.first next')) ∈ n.calls →
      (c', .fetching e due o (.first next')) ∈ n'.calls)
    (rests : ∀ {c' st}, (c', st) ∈ n'.calls → Stage.first? st = some e → (c', st) ∈ n.calls) :
    First e ⟨n', r, k⟩ := by
  have hentry : n'.entry e = n.entry e := by simp only [Node.entry, hviews]
  exact h.keep
    { idle := Midturn.first?_ne hfirst
      idle' := idle'
      settled := by simp
      flag := congrArg Entry.firstRefresh hentry
      status := fun hne => hentry ▸ hne
      options := congrArg Directory.options hviews
      time := Nat.le_of_eq htime.symm
      calls := calls
      waits := fun hw => ⟨rests hw.rests hw.first, hw.first, hentry ▸ hw.line⟩
      journal := ⟨[⟨n.time, .fetchBegan c v next⟩], hjournal, by simp [asksFirst_of_ne hfirst]⟩ }

/-- The call that makes the first refresh is the one that asks for it. -/
theorem asking_cases {n : Node σ} {c : CallId} {next : AfterFirst}
    {k : Option (CallId × Bool × List EntryId)}
    (h : First e ⟨n, some (c, .asking e (.first next)), k⟩) :
    (n.entry e).firstRefresh = .running ∧
      (∀ c' st, ¬ Midturn.Waits ⟨n, some (c, .asking e (.first next)), k⟩ e c' st) ∧
      firstAsks e n.journal = 0 ∧
      ∀ l ∈ n.journal, l.what = .created e → l.time = n.time := by
  have hidle : Midturn.first? ⟨n, some (c, .asking e (.first next)), k⟩ = some (c, e) := rfl
  cases h with
  | asking _ flag none asks fresh => exact ⟨flag, none, asks, fresh⟩
  | made run => cases run
  | lining run => cases run
  | heard run => cases run
  | refreshed run => cases run
  | fetching _ _ idle => exact absurd hidle (idle c)
  | past _ idle => exact absurd hidle (idle c)

theorem firstAsks_fetchBegan (n : Node σ) (c : CallId) (next : AfterFirst) :
    firstAsks e (⟨n.time, .fetchBegan c e (.first next)⟩ :: n.journal) =
      firstAsks e n.journal + 1 := by
  rw [firstAsks, List.countP_cons_of_pos (by simp [Happening.asksFirst])]
  rfl

theorem askNow [Registry σ] {n : Node σ} {c : CallId} {v : EntryId} {next : AfterRefresh}
    {k : Option (CallId × Bool × List EntryId)} (h : First e ⟨n, some (c, .asking v next), k⟩) :
    First e ⟨n.asked c v next, some (c, .heard v (n.outcomeFor v) next), k⟩ := by
  by_cases hfirst : next.firstOf? v = some e
  · cases next with
    | first next =>
      obtain rfl : v = e := Option.some.inj hfirst
      obtain ⟨flag, none, asks, -⟩ := h.asking_cases
      refine .heard rfl flag (fun c' st hw => none c' st ⟨hw.rests, hw.first, hw.line⟩) ?_
      exact (firstAsks_fetchBegan n c next).trans (congrArg (· + 1) asks)
    | _ => cases hfirst
  · exact h.ask_other hfirst rfl rfl rfl (Midturn.first?_ne hfirst) id fun hc _ => hc

theorem ask [Registry σ] {n : Node σ} {c : CallId} {v : EntryId} {next : AfterRefresh}
    {k : Option (CallId × Bool × List EntryId)} (h : First e ⟨n, some (c, .asking v next), k⟩) :
    First e ⟨(n.asked c v next).rest c
      (.fetching v (n.time + n.waitFor v) (n.outcomeFor v) next), none, k⟩ := by
  by_cases hfirst : next.firstOf? v = some e
  · cases next with
    | first next =>
      obtain rfl : v = e := Option.some.inj hfirst
      obtain ⟨flag, none, asks, fresh⟩ := h.asking_cases
      refine .fetching (Node.mem_rest_self ..) flag (by simp) ?_
        ((firstAsks_fetchBegan n c next).trans (congrArg (· + 1) asks)) ?_
      · intro c' st hw
        have hwf := hw.first
        rcases Node.mem_rest.mp hw.rests with hc | ⟨-, rfl⟩
        · exact absurd ⟨hc, hwf, hw.line⟩ (none c' st)
        · rfl
      · intro l hl hwhat
        have hmem : l ∈ n.journal := by
          rcases List.mem_cons.mp hl with rfl | hl
          · cases hwhat
          · exact hl
        rw [fresh l hmem hwhat]
        exact Nat.add_le_add_left (Nat.min_le_right ..) _
    | _ => cases hfirst
  · refine h.ask_other hfirst rfl rfl rfl (by simp) (fun hc => Node.mem_rest.mpr (.inl hc)) ?_
    intro c' st hc hwf
    rcases Node.mem_rest.mp hc with hc | ⟨-, rfl⟩
    · exact hc
    · exact absurd hwf hfirst

/-- A view is revised, and not by its first refresh. -/
theorem revise {n n' : Node σ} {c : CallId} {v : EntryId} {p p' : Point σ}
    {k : Option (CallId × Bool × List EntryId)} {what : Happening}
    (h : First e ⟨n, some (c, p), k⟩) (r : n.Revised n' v)
    (hjournal : n'.journal = ⟨n.time, what⟩ :: n.journal) (hasks : what.asksFirst e = false)
    (hwhat : what ≠ .created e) (hp : p.first? ≠ some e) (hp' : p'.first? ≠ some e)
    (hholds : p.holds? ≠ none) : First e ⟨n', some (c, p'), k⟩ := by
  have hsettled {c' next} (hrun : some (c, p) = some (c', (.ensuring e next : Point σ))) :
      (n.entry e).firstRefresh ≠ .pending := by
    cases hrun
    exact absurd rfl hholds
  exact h.keep
    { idle := Midturn.first?_ne hp
      idle' := Midturn.first?_ne hp'
      settled := hsettled
      flag := r.firstRefresh_eq e
      status := r.status_ne
      options := r.options
      time := Nat.le_of_eq r.time.symm
      calls := fun hc => r.calls.symm ▸ hc
      waits := fun hw => ⟨r.calls ▸ hw.rests, hw.first, r.mem_writers hw.line⟩
      journal := ⟨[⟨n.time, what⟩], hjournal, by simp [hasks, hwhat]⟩ }

theorem hear {n : Node σ} {c : CallId} {v : EntryId} {o : Outcome} {next : AfterRefresh}
    {k : Option (CallId × Bool × List EntryId)} (h : First e ⟨n, some (c, .heard v o next), k⟩)
    (hv : v < n.directory.entries.length) :
    First e ⟨n.settled c v o next, some (c, .refreshed v (n.outcomeOn v o).2 next), k⟩ := by
  have r := n.revised_settled c o next hv
  by_cases hfirst : next.firstOf? v = some e
  · cases next with
    | first next =>
      obtain rfl : v = e := Option.some.inj hfirst
      have hidle : Midturn.first? ⟨n, some (c, .heard v o (.first next)), k⟩ = some (c, v) := rfl
      have hstatus : ((n.settled c v o (.first next)).entry v).status ≠ .initial := by
        rw [n.entry_settled c o _ hv]
        simp only [Node.outcomeOn]
        rw [Entry.afterRefresh_fst]
        exact Entry.afterRefresh_ne_initial _ _ _
      cases h with
      | heard _ flag none asks =>
        refine .refreshed rfl (r.firstRefresh.trans flag) ?_ asks hstatus ?_
        · intro c' st hw
          exact none c' st ⟨r.calls ▸ hw.rests, hw.first, r.mem_writers hw.line⟩
        · exact ⟨_, List.mem_cons_self, Nat.le_refl _, beq_self_eq_true v⟩
      | made run => cases run
      | lining run => cases run
      | asking run => cases run
      | refreshed run => cases run
      | fetching _ _ idle => exact absurd hidle (idle c)
      | past _ idle => exact absurd hidle (idle c)
    | _ => cases hfirst
  · exact h.revise r rfl rfl (by simp) hfirst hfirst (by simp [Point.holds?])

theorem apply {n : Node σ} {c : CallId} {v : EntryId} {change : InstanceChange}
    {next : AfterChange} {p : Point σ} {k : Option (CallId × Bool × List EntryId)}
    (h : First e ⟨n, some (c, .applying v change next), k⟩)
    (hv : v < n.directory.entries.length) (hp : p.first? = none) :
    First e ⟨(n.applyChange c v change).2, some (c, p), k⟩ :=
  h.revise (n.revised_applyChange c change hv) rfl rfl (by simp) (by simp [Point.first?])
    (by simp [hp]) (by simp [Point.holds?])

theorem forget {n : Node σ} {c : CallId} {v : EntryId} {es : List EntryId}
    {next : AfterForgetting} {k : Option (CallId × Bool × List EntryId)}
    (h : First e ⟨n, some (c, .forgetting (v :: es) next), k⟩) :
    First e ⟨n.forget v, some (c, .forgetting es next), k⟩ := by
  have hflag := n.entry_modifyEntry_congr Entry.firstRefresh v e (f := Entry.forgetRevision) rfl
  have hstatus := n.entry_modifyEntry_congr Entry.status v e (f := Entry.forgetRevision) rfl
  have hwriters := n.entry_modifyEntry_congr Entry.writers v e (f := Entry.forgetRevision) rfl
  exact h.keep
    { idle := by simp [Point.first?]
      idle' := by simp [Point.first?]
      settled := by simp
      flag := hflag
      status := fun hne => hstatus ▸ hne
      options := rfl
      time := Nat.le_refl _
      calls := id
      waits := fun hw => ⟨hw.rests, hw.first, hwriters ▸ hw.line⟩
      journal := ⟨[⟨n.time, .forgot v⟩], rfl, by simp [Happening.asksFirst]⟩ }

end First

/-- Every view that was made is on its way to its one first refresh, or past it. -/
def AllFirst (s : Midturn σ) : Prop :=
  ∀ e < s.node.directory.entries.length, First e s

theorem AllFirst.touch [Registry σ] {s s' : Midturn σ} (h : AllFirst s) (hs : Sound s)
    (t : Touch s s') : AllFirst s' := by
  intro e he
  cases t with
  | wake rests awake hline => exact (h e he).wake hs rests awake hline
  | forget n c k v es next => exact (h e (n.length_modifyEntry v _ ▸ he)).forget
  | create valid hfind => exact First.create (h e) hs he
  | @beginFirst n c k v next hflag =>
    have he' : e < n.directory.entries.length := n.length_modifyEntry v _ ▸ he
    exact (h e he').begin he' hflag
  | endFirst n c k v status next =>
    have he' : e < n.directory.entries.length := n.length_modifyEntry v _ ▸ he
    exact (h e he').finish he'
  | @lock n c k v job hfree => exact (h e (n.length_modifyEntry v _ ▸ he)).lock hs.orderly
  | @wait n c k v job hbusy =>
    have he' : e < n.directory.entries.length := n.length_modifyEntry v _ ▸ he
    exact (h e he').wait hs.orderly he' hbusy
  | askNow hwait => exact (h e he).askNow
  | ask hwait => exact (h e he).ask
  | hear n c k v o next =>
    have hv : v < n.directory.entries.length := hs.inLine.lt_length rfl
    have he' : e < n.directory.entries.length := (n.revised_settled c o next hv).length ▸ he
    exact (h e he').hear hv
  | apply n c k v change next hold first =>
    have hv : v < n.directory.entries.length := hs.inLine.lt_length rfl
    have he' : e < n.directory.entries.length := (n.revised_applyChange c change hv).length ▸ he
    exact (h e he').apply hv first

/-- **Every move takes every first refresh from phase to phase.** -/
theorem AllFirst.move [Registry σ] {s s' : Midturn σ} (h : AllFirst s) (hs : Sound s)
    (m : Move s s') : AllFirst s' := by
  rcases m.apart_or_touch hs.orderly with ha | ht
  · exact fun e he => (h e (ha.length ▸ he)).of_apart ha
  · exact h.touch hs ht

end ServiceFinder
