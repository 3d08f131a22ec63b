/-
  ServiceFinder/Proofs/Node/Solo.lean
  ===================================
  **A refresh that runs alone.**

  Where nobody stands in line for the write lock of a view, a refresh of it has the lock at
  once, and is over when the registry has answered or time is up.  What it makes of the view
  depends on the view, on the next answer for its key and on the options (`Node.renewed`), and
  the line for the write lock has no part in it (`Entry.afterRefresh_unlined`).
-/
import ServiceFinder.Proofs.Node.Touch

namespace ServiceFinder

variable {σ : Type}

/-! ### Views without their lines -/

namespace Entry

/-- The view without its line for the write lock. -/
def unlined (x : Entry) : Entry := { x with writers := [] }

theorem unlined_of_free {x : Entry} (free : x.writers = []) : x.unlined = x := by
  rw [unlined, ← free]

theorem unlined_congr {x y : Entry} (writers : List CallId) (h : x = { y with writers }) :
    x.unlined = y.unlined := by
  rw [h]
  rfl

/-- A refresh does not look at the line, and leaves it alone. -/
theorem afterRefresh_unlined (policy : EmptyListPolicy) (o : Outcome) (x : Entry) :
    x.unlined.afterRefresh policy o =
      ((x.afterRefresh policy o).1.unlined, (x.afterRefresh policy o).2) := by
  have hadopt : x.unlined.adopt policy o = ((x.adopt policy o).1.unlined, (x.adopt policy o).2) := by
    unfold adopt
    split
    · rename_i l
      unfold adoptListing unlined refusesEmpty
      dsimp only
      split
      · rfl
      · split <;> rfl
    all_goals rfl
  simp only [afterRefresh, hadopt]
  rfl

end Entry

/-! ### What a refresh makes of a view -/

/-- The refresh of one view. -/
def Operation.refreshOf (forced : Bool) (e : EntryId) : Operation σ :=
  if forced then .forceRefresh e else .refresh e

namespace Node

/-- The view as a refresh takes it up: a forced one forgets the revision first. -/
def primed (n : Node σ) (forced : Bool) (e : EntryId) : Entry :=
  if forced then (n.entry e).forgetRevision else n.entry e

/-- The view after a refresh that begins now, and its status. -/
def renewed [Registry σ] (n : Node σ) (forced : Bool) (e : EntryId) : Entry × CacheStatus :=
  (n.primed forced e).afterRefresh n.directory.options.policy (n.outcomeFor e)

section Views

variable (n : Node σ) (c : CallId) {e : EntryId}

theorem unlined_settled (o : Outcome) (next : AfterRefresh) (h : e < n.directory.entries.length) :
    ((n.settled c e o next).entry e).unlined =
      ((n.entry e).unlined.afterRefresh n.directory.options.policy o).1 := by
  rw [Entry.afterRefresh_unlined]
  exact Entry.unlined_congr _ (n.entry_settled c o next h)

theorem outcomeOn_unlined (e : EntryId) (o : Outcome) :
    (n.outcomeOn e o).2 = ((n.entry e).unlined.afterRefresh n.directory.options.policy o).2 := by
  rw [Entry.afterRefresh_unlined]
  rfl

theorem primed_free (forced : Bool) (free : (n.entry e).writers = []) :
    (n.primed forced e).writers = [] := by
  cases forced <;> exact free

end Views

/-! ### A run of its own -/

variable [Registry σ]

/-- The node after a refresh of `e` that nothing else happens beside. -/
def solo (n : Node σ) (forced : Bool) (e : EntryId) : Node σ :=
  n.follow [.call (.refreshOf forced e), .pass (n.waitFor e), .resume n.nextCall]

section Solo

variable {n : Node σ} {c : CallId} {e : EntryId}

theorem fetch_eq (n : Node σ) (c : CallId) (e : EntryId) (next : AfterRefresh) :
    n.fetch c e next =
      if n.waitFor e = 0 then (n.asked c e next).endFetch c e (n.outcomeFor e) next
      else (n.asked c e next).rest c
        (.fetching e (n.time + n.waitFor e) (n.outcomeFor e) next) := rfl

omit [Registry σ] in
/-- What is heard for a view with one call in its line. -/
theorem endFetch_status {x : Entry} (o : Outcome) (hentry : n.entry e = { x with writers := [c] })
    (free : x.writers = []) :
    let y := x.afterRefresh n.directory.options.policy o
    (n.endFetch c e o .status).entry e = y.1 ∧
      (n.endFetch c e o .status).replies = ⟨c, n.time, .status y.2⟩ :: n.replies := by
  intro y
  have he : e < n.directory.entries.length :=
    lt_length_of_writes (c := c) (by rw [hentry]; rfl)
  have hview : (n.entry e).unlined = x := by
    rw [hentry]
    exact Entry.unlined_of_free free
  have hsettled : ((n.settled c e o .status).entry e).writers = [] := by
    rw [n.entry_settled c o .status he, hentry]
    rfl
  constructor
  · calc (n.settled c e o .status).entry e
        = ((n.settled c e o .status).entry e).unlined := (Entry.unlined_of_free hsettled).symm
      _ = ((n.entry e).unlined.afterRefresh n.directory.options.policy o).1 :=
          n.unlined_settled c o .status he
      _ = y.1 := by rw [hview]
  · have hstatus := n.outcomeOn_unlined e o
    rw [hview] at hstatus
    show ⟨c, n.time, .status (n.outcomeOn e o).2⟩ :: n.replies = _
    rw [hstatus]

/-- The call for a refresh, where nobody stands in line: it asks at once. -/
theorem call_refreshOf (forced : Bool) (he : e < n.directory.entries.length)
    (free : (n.entry e).writers = []) :
    ∃ m : Node σ, (n.call (.refreshOf forced e)).2 = m.fetch n.nextCall e .status ∧
      m.entry e = { n.primed forced e with writers := [n.nextCall] } ∧
      m.directory.options = n.directory.options ∧ m.registry = n.registry ∧ m.time = n.time ∧
      m.calls = n.calls := by
  let k : Node σ := if forced then n.newCall.2.forget e else n.newCall.2
  have hk : k.directory.options = n.directory.options ∧ k.registry = n.registry ∧
      k.time = n.time ∧ k.calls = n.calls := by
    cases forced <;> exact ⟨rfl, rfl, rfl, rfl⟩
  have hlen : e < k.directory.entries.length := by
    cases forced with
    | false => exact he
    | true => exact (length_modifyEntry ..).symm ▸ he
  have hview : k.entry e = n.primed forced e := by
    cases forced with
    | false => rfl
    | true => exact entry_modifyEntry_self (n := n.newCall.2) _ he
  have hqueued : (k.queueWriter n.nextCall e).entry e =
      { n.primed forced e with writers := [n.nextCall] } := by
    rw [queueWriter, entry_modifyEntry_self _ hlen, hview, n.primed_free forced free]
    rfl
  have hwrites : (k.queueWriter n.nextCall e).writes n.nextCall e = true := by
    simp [writes, hqueued]
  refine ⟨k.queueWriter n.nextCall e, ?_, hqueued, hk⟩
  have hstart : (n.call (.refreshOf forced e)).2 = k.refresh n.nextCall e .status := by
    cases forced <;> rfl
  rw [hstart, refresh, if_pos hwrites]

/-- The refresh hears the answer when the lookup is over, and finds the view as it took it up. -/
theorem solo_hears (forced : Bool) (he : e < n.directory.entries.length)
    (free : (n.entry e).writers = []) (fresh : n.stage? n.nextCall = none) :
    ∃ k : Node σ, k.entry e = { n.primed forced e with writers := [n.nextCall] } ∧
      k.directory.options = n.directory.options ∧ k.time = n.time + n.waitFor e ∧
      (n.solo forced e).directory =
        (k.endFetch n.nextCall e (n.outcomeFor e) .status).directory ∧
      (n.solo forced e).replies =
        (k.endFetch n.nextCall e (n.outcomeFor e) .status).replies := by
  obtain ⟨m, hcall, hentry, hoptions, hregistry, htime, hcalls⟩ := n.call_refreshOf forced he free
  have hkey : (m.entry e).key = (n.entry e).key := by
    rw [hentry]
    cases forced <;> rfl
  have hwait : m.waitFor e = n.waitFor e := by rw [waitFor, hkey, hregistry, hoptions, waitFor]
  have houtcome : m.outcomeFor e = n.outcomeFor e := by
    rw [outcomeFor, hkey, hregistry, hoptions, outcomeFor]
  have hcalled := hcall.trans (m.fetch_eq n.nextCall e .status)
  rw [hwait, houtcome, htime] at hcalled
  let later := (n.call (.refreshOf forced e)).2.act (.pass (n.waitFor e))
  have hsolo : n.solo forced e = later.act (.resume n.nextCall) := rfl
  by_cases hzero : n.waitFor e = 0
  · -- the call has answered at once, and nobody is left to resume
    rw [if_pos hzero] at hcalled
    have hnone : later.stage? n.nextCall = none := by
      show List.lookup n.nextCall (n.call (.refreshOf forced e)).2.calls = none
      rw [hcalled]
      exact hcalls ▸ fresh
    have hasleep : later.isAwake n.nextCall ≠ true := by simp [isAwake, hnone]
    rw [act, if_neg hasleep] at hsolo
    refine ⟨m.asked n.nextCall e .status, hentry, hoptions, ?_, ?_, ?_⟩
    · rw [hzero]
      exact htime
    · rw [hsolo, ← hcalled]
      rfl
    · rw [hsolo, ← hcalled]
      rfl
  · rw [if_neg hzero] at hcalled
    let asking : Stage σ := .fetching e (n.time + n.waitFor e) (n.outcomeFor e) .status
    have hlater : later = { (m.asked n.nextCall e .status).rest n.nextCall asking with
        time := m.time + n.waitFor e } :=
      congrArg (fun x : Node σ => x.act (.pass (n.waitFor e))) hcalled
    have hstage : later.stage? n.nextCall = some asking := by
      rw [hlater]
      show List.lookup n.nextCall (m.calls ++ [(n.nextCall, asking)]) = some asking
      rw [hcalls, List.lookup_append, show List.lookup n.nextCall n.calls = none from fresh]
      simp
    have hawake : later.isAwake n.nextCall = true := by
      rw [isAwake, hstage, Option.any_some]
      refine decide_eq_true (Nat.le_of_eq ?_)
      rw [hlater, ← htime]
    rw [act, if_pos hawake, resume, hstage] at hsolo
    refine ⟨later.unrest n.nextCall, ?_, ?_, ?_, ?_, ?_⟩
    · rw [hlater]
      exact hentry
    · rw [hlater]
      exact hoptions
    · rw [hlater, ← htime]
      rfl
    · rw [hsolo]
    · rw [hsolo]

/-- **What a refresh leaves that runs alone, and what it answers and when.** -/
theorem solo_spec (forced : Bool) (he : e < n.directory.entries.length)
    (free : (n.entry e).writers = []) (fresh : n.stage? n.nextCall = none) :
    (n.solo forced e).entry e = (n.renewed forced e).1 ∧
      (n.solo forced e).reply? n.nextCall =
        some ⟨n.nextCall, n.time + n.waitFor e, .status (n.renewed forced e).2⟩ := by
  obtain ⟨k, hview, hoptions, htime, hdirectory, hreplies⟩ := n.solo_hears forced he free fresh
  obtain ⟨hleft, hanswer⟩ :=
    endFetch_status (n.outcomeFor e) hview (n.primed_free forced free)
  rw [hoptions] at hleft hanswer
  constructor
  · rw [entry, hdirectory]
    exact hleft
  · rw [reply?, hreplies, hanswer, htime]
    exact List.find?_cons_of_pos (beq_self_eq_true _)

end Solo

end Node

end ServiceFinder
