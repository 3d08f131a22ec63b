/-
  ServiceFinder/Proofs/Health/Grants.lean
  =======================================
  **One holder at a time.**

  The token on record is the last grant of the permit, unless it was given back since
  (`Permit.Records`).  So the next application is granted exactly if there was no grant yet, or
  the permit was cleared or given back by its holder since the last one, or its time is over.
  Reports of other invocations change nothing, and neither does what the clock showed in
  between.
-/
import ServiceFinder.Proofs.Balance.Choice

namespace ServiceFinder

/-! ### What happens to the permit -/

/-- An event that changes the permit. -/
inductive Permit.Event where
  | granted (i : Invocation) (time : Millis)
  /-- Given back by the invocation that held it. -/
  | returned (i : Invocation)
  /-- Taken back from whoever held it. -/
  | cleared
deriving DecidableEq, Repr

def Permit.Event.isGrant : Permit.Event → Bool
  | granted .. => true
  | _ => false

namespace Permit

/-- The last grant of a log went to `a` at the time `t`; what followed is `since`. -/
def LastGrant (log : List Permit.Event) (a : Invocation) (t : Millis)
    (since : List Permit.Event) : Prop :=
  ∃ before, log = before ++ .granted a t :: since ∧ ∀ e ∈ since, e.isGrant = false

/-- The holder has lost the permit: it was cleared, or given back. -/
def Lost (a : Invocation) (since : List Permit.Event) : Prop :=
  .cleared ∈ since ∨ .returned a ∈ since

end Permit

namespace Monitor

/-- What a request does to the permit, told by its answer. -/
def permitEvents (m : Monitor) : Request → List Permit.Event
  | .apply i => if (m.apply i).1 then [.granted i m.now] else []
  | .check server i => if (m.check server i).1 == .probe then [.granted i m.now] else []
  | .release => [.cleared]
  | .checkAndRelease i => if (m.checkAndRelease i).1 then [.returned i] else []
  | .finish server success i =>
    if ((m.mark success server).checkAndRelease i).1 then [.returned i] else []
  | _ => []

/-- What a row of requests does to the permit, in order. -/
def permitLog (m : Monitor) : List Request → List Permit.Event
  | [] => []
  | q :: qs => m.permitEvents q ++ (m.perform q).permitLog qs

theorem permitLog_concat (m : Monitor) (qs : List Request) (q : Request) :
    m.permitLog (qs ++ [q]) = m.permitLog qs ++ (m.performAll qs).permitEvents q := by
  induction qs generalizing m with
  | nil => simp [permitLog, performAll]
  | cons q' qs ih =>
    have hrest := ih (m.perform q')
    simp only [List.cons_append, permitLog, hrest, List.append_assoc]
    rfl

end Monitor

/-! ### Last grants -/

namespace Permit

section LastGrant

variable {log since : List Permit.Event} {a b : Invocation} {t t' : Millis} {e : Permit.Event}

theorem LastGrant.mem (h : LastGrant log a t since) : .granted a t ∈ log := by
  obtain ⟨before, rfl, -⟩ := h
  simp

theorem lastGrant_of_grant (log : List Permit.Event) (b : Invocation) (t : Millis) :
    LastGrant (log ++ [.granted b t]) b t [] :=
  ⟨log, rfl, by simp⟩

theorem LastGrant.concat (h : LastGrant log a t since) (he : e.isGrant = false) :
    LastGrant (log ++ [e]) a t (since ++ [e]) := by
  obtain ⟨before, rfl, hsince⟩ := h
  refine ⟨before, by simp, ?_⟩
  intro e' he'
  rcases List.mem_append.mp he' with he' | he'
  · exact hsince e' he'
  · rwa [List.mem_singleton.mp he']

/-- A log has one last grant. -/
theorem LastGrant.unique {since' : List Permit.Event} (h : LastGrant log a t since)
    (h' : LastGrant log b t' since') : a = b ∧ t = t' ∧ since = since' := by
  obtain ⟨before, hlog, hsince⟩ := h
  obtain ⟨before', rfl, hsince'⟩ := h'
  -- from the end, both logs run through events that are no grants up to the first grant
  have hrev (before : List Permit.Event) (a : Invocation) (t : Millis) {since : List Permit.Event}
      (hsince : ∀ e ∈ since, e.isGrant = false) :
      (before ++ .granted a t :: since).reverse.takeWhile (!·.isGrant) = since.reverse ∧
        (before ++ .granted a t :: since).reverse.find? (·.isGrant) = some (.granted a t) := by
    have hno : ∀ e ∈ since.reverse, (!e.isGrant) = true := by simpa using hsince
    have hnone : since.reverse.find? (·.isGrant) = none := by simpa using hsince
    simp only [List.reverse_append, List.reverse_cons, List.append_assoc, List.singleton_append]
    rw [List.takeWhile_append_of_pos hno, List.find?_append, hnone]
    simp [Permit.Event.isGrant]
  obtain ⟨htake, hfind⟩ := hrev before' b t' hsince'
  obtain ⟨htake', hfind'⟩ := hrev before a t hsince
  rw [← hlog] at htake' hfind'
  rw [htake] at htake'
  rw [hfind] at hfind'
  cases hfind'
  exact ⟨rfl, rfl, (List.reverse_inj.mp htake').symm⟩

/-- A log holds no grant, or has a last one. -/
theorem exists_lastGrant (log : List Permit.Event) :
    (∀ e ∈ log, e.isGrant = false) ∨ ∃ a t since, LastGrant log a t since := by
  induction log using List.reverseRecOn with
  | nil => exact .inl (by simp)
  | append_singleton log e ih =>
    cases e with
    | granted b t => exact .inr ⟨b, t, [], lastGrant_of_grant log b t⟩
    | returned | cleared =>
      rcases ih with hnone | ⟨a, t, since, h⟩
      · refine .inl ?_
        intro e he
        rcases List.mem_append.mp he with he | he
        · exact hnone e he
        · rw [List.mem_singleton.mp he]
          rfl
      · exact .inr ⟨a, t, _, h.concat rfl⟩

end LastGrant

/-! ### The token on record -/

/-- The token on record is the last grant, unless it was lost since. -/
structure Records (ttl : Millis) (log : List Permit.Event) (p : Permit) : Prop where
  lasts : p.ttl = ttl
  unused : (∀ e ∈ log, e.isGrant = false) → p.token = none
  lost : ∀ {a t since}, LastGrant log a t since → Lost a since → p.token = none
  held : ∀ {a t since}, LastGrant log a t since → ¬ Lost a since → p.token = some ⟨a, t, ttl⟩

namespace Records

variable {ttl now : Millis} {log since : List Permit.Event} {p p' : Permit} {a b i : Invocation}
  {t : Millis}

theorem start (ttl : Millis) : Records ttl [] { ttl } where
  lasts := rfl
  unused _ := rfl
  lost h := absurd h.mem (by simp)
  held h := absurd h.mem (by simp)

theorem grant (h : Records ttl log p) (i : Invocation) (now : Millis) :
    Records ttl (log ++ [.granted i now]) { p with token := some ⟨i, now, p.ttl⟩ } where
  lasts := h.lasts
  unused hnone := by
    have hgrant := hnone (.granted i now) (by simp)
    simp [Event.isGrant] at hgrant
  lost hlast hlost := by
    obtain ⟨rfl, rfl, rfl⟩ := hlast.unique (lastGrant_of_grant log i now)
    simp [Lost] at hlost
  held hlast _ := by
    obtain ⟨rfl, rfl, rfl⟩ := hlast.unique (lastGrant_of_grant log i now)
    rw [h.lasts]

/-- An event after which the holder of the last grant has lost it. -/
theorem lose {e : Permit.Event} (h : Records ttl log p) (he : e.isGrant = false)
    (hlost : ∀ {a t since}, LastGrant log a t since → Lost a (since ++ [e])) :
    Records ttl (log ++ [e]) p.release where
  lasts := h.lasts
  unused _ := rfl
  lost _ _ := rfl
  held := by
    intro a t since hlast hheld
    rcases exists_lastGrant log with hnone | ⟨b, u, since', h'⟩
    · rcases List.mem_append.mp hlast.mem with hmem | hmem
      · have hgrant := hnone _ hmem
        simp [Event.isGrant] at hgrant
      · rw [← List.mem_singleton.mp hmem] at he
        simp [Event.isGrant] at he
    · obtain ⟨rfl, rfl, rfl⟩ := hlast.unique (h'.concat he)
      exact absurd (hlost h') hheld

theorem clear (h : Records ttl log p) : Records ttl (log ++ [.cleared]) p.release :=
  h.lose rfl fun _ => .inl (by simp)

/-- A token on record is of the last grant. -/
theorem lastGrant {token : Token} (h : Records ttl log p) (htoken : p.token = some token) :
    ∃ since, LastGrant log token.invocation token.grantedAt since ∧
      ¬ Lost token.invocation since := by
  rcases exists_lastGrant log with hnone | ⟨a, t, since, hlast⟩
  · rw [h.unused hnone] at htoken
    cases htoken
  · by_cases hlost : Lost a since
    · rw [h.lost hlast hlost] at htoken
      cases htoken
    · rw [h.held hlast hlost] at htoken
      cases htoken
      exact ⟨since, hlast, hlost⟩

/-- **The permit is given back by an invocation exactly if it was the last to be granted it and
    did not lose it since.** -/
theorem checkAndRelease_iff (h : Records ttl log p) :
    (p.checkAndRelease i).1 = true ↔ ∃ t since, LastGrant log i t since ∧ ¬ Lost i since := by
  have hfst : (p.checkAndRelease i).1 = p.token.any (·.invocation == i) := by
    unfold checkAndRelease
    split <;> simp_all
  rw [hfst]
  constructor
  · intro hany
    cases htoken : p.token with
    | none => simp [htoken] at hany
    | some token =>
      obtain ⟨since, hlast, hheld⟩ := h.lastGrant htoken
      have hi : token.invocation = i := by simpa [htoken] using hany
      rw [hi] at hlast hheld
      exact ⟨token.grantedAt, since, hlast, hheld⟩
  · rintro ⟨t, since, hlast, hheld⟩
    rw [h.held hlast hheld]
    simp

/-- **An application is granted exactly if the holder of the last grant lost it since, or its time
    is over.** -/
theorem apply_iff (h : Records ttl log p) (hlast : LastGrant log a t since) :
    (p.apply now b).1 = true ↔ Lost a since ∨ ttl ≤ elapsed t now := by
  have hfst : (p.apply now b).1 = p.isFree now := by
    unfold apply
    split <;> simp_all
  rw [hfst, isFree]
  by_cases hlost : Lost a since
  · simp [h.lost hlast hlost, hlost]
  · simp [h.held hlast hlost, hlost, Token.isExpired]

theorem unused_apply (h : Records ttl log p) (hnone : ∀ e ∈ log, e.isGrant = false) :
    (p.apply now b).1 = true := by
  simp [apply, isFree, h.unused hnone]

theorem lent {granted : Bool} (h : Records ttl log p) (hlent : p.Lent now i granted p') :
    Records ttl (log ++ if granted = true then [.granted i now] else []) p' := by
  cases hlent with
  | probe happly =>
    obtain ⟨-, rfl⟩ := apply_eq_granted_iff.mp happly
    exact h.grant i now
  | plain => simpa using h

theorem checkAndRelease (h : Records ttl log p) (i : Invocation) :
    Records ttl (log ++ if (p.checkAndRelease i).1 then [.returned i] else [])
      (p.checkAndRelease i).2 := by
  by_cases hi : (p.checkAndRelease i).1 = true
  · have hsnd : (p.checkAndRelease i).2 = p.release := by
      unfold Permit.checkAndRelease at hi ⊢
      split at hi <;> simp_all
    rw [hsnd, if_pos hi]
    refine h.lose rfl ?_
    intro a t since hlast
    -- whoever gives the permit back is the one that was granted it last
    obtain ⟨t', since', hlast', -⟩ := h.checkAndRelease_iff.mp hi
    obtain ⟨rfl, -, -⟩ := hlast.unique hlast'
    exact .inr (by simp)
  · have hsnd : (p.checkAndRelease i).2 = p := by
      unfold Permit.checkAndRelease at hi ⊢
      split at hi <;> simp_all
    simpa [hsnd, hi] using h

end Records

theorem lent_apply (p : Permit) (now : Millis) (i : Invocation) :
    p.Lent now i (p.apply now i).1 (p.apply now i).2 := by
  rcases happly : p.apply now i with ⟨granted, p'⟩
  cases granted with
  | true => exact .probe happly
  | false =>
    obtain ⟨-, rfl⟩ := apply_eq_refused_iff.mp happly
    exact .plain

end Permit

/-! ### Histories -/

namespace Monitor

open Permit

variable {m : Monitor} {ttl : Millis} {log : List Permit.Event}

/-- What a request does to the permit keeps the token on record what it should be. -/
theorem records_perform (h : m.permit.Records ttl log) (q : Request) :
    (m.perform q).permit.Records ttl (log ++ m.permitEvents q) := by
  cases q with
  | apply i => exact h.lent (m.permit.lent_apply m.now i)
  | check server i => exact h.lent (m.lent_check server i)
  | release => exact h.clear
  | checkAndRelease i => exact h.checkAndRelease i
  | finish server success i => exact h.checkAndRelease i
  | setClock | advanceClock | observe | mark | retain =>
    show m.permit.Records ttl (log ++ [])
    rwa [List.append_nil]

theorem records_performAll (h : m.permit.Records ttl log) (qs : List Request) :
    (m.performAll qs).permit.Records ttl (log ++ m.permitLog qs) := by
  induction qs using List.reverseRecOn with
  | nil => simpa [permitLog, performAll] using h
  | append_singleton qs q ih =>
    rw [permitLog_concat, performAll_append, ← List.append_assoc]
    exact records_perform ih q

/-- A grant is of an application at the time at hand. -/
theorem apply_of_granted {q : Request} {b : Invocation} {t : Millis}
    (h : .granted b t ∈ m.permitEvents q) : t = m.now ∧ (m.apply b).1 = true := by
  cases q with
  | apply i =>
    by_cases hi : (m.apply i).1 = true
    · simp only [permitEvents, if_pos hi, List.mem_singleton, Event.granted.injEq] at h
      obtain ⟨rfl, rfl⟩ := h
      exact ⟨rfl, hi⟩
    · simp [permitEvents, hi] at h
  | check server i =>
    have hlent := m.lent_check server i
    by_cases hi : ((m.check server i).1 == .probe) = true
    · simp only [permitEvents, if_pos hi, List.mem_singleton, Event.granted.injEq] at h
      obtain ⟨rfl, rfl⟩ := h
      rw [hi] at hlent
      cases hlent with
      | probe happly => exact ⟨rfl, congrArg Prod.fst happly⟩
    · simp [permitEvents, hi] at h
  | finish server success i =>
    simp only [permitEvents] at h
    split at h <;> simp at h
  | checkAndRelease i =>
    simp only [permitEvents] at h
    split at h <;> simp at h
  | release | setClock | advanceClock | observe | mark | retain => simp [permitEvents] at h

/-- While somebody holds the permit, nobody else is granted it. -/
theorem permitLog_apply_of_held (held : m.holder ≠ none) (is : List Invocation) :
    m.permitLog (is.map .apply) = [] := by
  induction is generalizing m with
  | nil => rfl
  | cons i is ih =>
    have hfree : m.permit.isFree m.now = false := by
      rw [← Bool.not_eq_true, ← holder_eq_none_iff]
      exact held
    have happly : m.permit.apply m.now i = (false, m.permit) :=
      apply_eq_refused_iff.mpr ⟨hfree, rfl⟩
    have hevents : m.permitEvents (.apply i) = [] := by
      simp [permitEvents, apply, happly]
    have hheld : (m.perform (.apply i)).holder ≠ none := by
      show (m.permit.apply m.now i).2.holder m.now ≠ none
      rw [happly]
      exact held
    rw [List.map_cons, permitLog, hevents, ih hheld]
    rfl

/-- The first to apply takes the permit if nobody holds it, and all others go empty. -/
theorem permitLog_apply (lasts : 0 < m.permit.ttl) (i : Invocation) (is : List Invocation) :
    m.permitLog ((i :: is).map .apply) =
      if m.holder = none then [.granted i m.now] else [] := by
  by_cases hholder : m.holder = none
  · have happly : m.permit.apply m.now i =
        (true, { m.permit with token := some ⟨i, m.now, m.permit.ttl⟩ }) :=
      apply_eq_granted_iff.mpr ⟨holder_eq_none_iff.mp hholder, rfl⟩
    have hevents : m.permitEvents (.apply i) = [.granted i m.now] := by
      simp [permitEvents, apply, happly]
    have hheld : (m.perform (.apply i)).holder ≠ none := by
      show (m.permit.apply m.now i).2.holder m.now ≠ none
      rw [happly, holder_granted lasts]
      simp
    rw [List.map_cons, permitLog, hevents, permitLog_apply_of_held hheld, if_pos hholder]
    rfl
  · rw [permitLog_apply_of_held hholder, if_neg hholder]

/-- **One invocation at a time holds the permit.**  An application is granted if there was no
    grant before.  If there was, the next one is granted exactly if since the last the permit was
    cleared, or given back by its holder, or its time is over by the clock.  Only the holder can
    give it back, and of some that apply at the same time one is granted it if nobody holds it,
    and none if somebody does. -/
theorem one_holder_at_a_time (c : Config) (t₀ : Millis) (qs : List Request)
    (lasts : 0 < c.permitTtl) :
    let m := (c.monitor t₀).performAll qs
    let log := (c.monitor t₀).permitLog qs
    (∀ b, (∀ e ∈ log, e.isGrant = false) → (m.apply b).1 = true) ∧
    (∀ a t since, LastGrant log a t since →
      (∀ b, (m.apply b).1 = true ↔
        Lost a since ∨ c.permitTtl.toNat ≤ m.now.toNat - t.toNat) ∧
      ∀ q b t', .granted b t' ∈ m.permitEvents q →
        t' = m.now ∧ (Lost a since ∨ c.permitTtl.toNat ≤ t'.toNat - t.toNat)) ∧
    (∀ i, (m.checkAndRelease i).1 = true ↔ ∃ t since, LastGrant log i t since ∧ ¬ Lost i since) ∧
    (∀ i is, m.permitLog ((i :: is).map .apply) =
      if m.holder = none then [.granted i m.now] else []) := by
  intro m log
  have hstart : (c.monitor t₀).permit.Records c.permitTtl [] := .start c.permitTtl
  have hrecords : m.permit.Records c.permitTtl log := records_performAll hstart qs
  have happly {a : Invocation} {t : Millis} {since : List Permit.Event}
      (hlast : LastGrant log a t since) (b : Invocation) : (m.apply b).1 = true ↔
        Lost a since ∨ c.permitTtl.toNat ≤ m.now.toNat - t.toNat := by
    rw [← elapsed_toNat, ← UInt64.le_iff_toNat_le]
    exact hrecords.apply_iff hlast
  refine ⟨fun b hnone => hrecords.unused_apply hnone, ?_, fun i => hrecords.checkAndRelease_iff,
    permitLog_apply (hrecords.lasts ▸ lasts)⟩
  intro a t since hlast
  refine ⟨happly hlast, ?_⟩
  intro q b t' hgranted
  obtain ⟨rfl, hgrant⟩ := apply_of_granted hgranted
  exact ⟨rfl, (happly hlast b).mp hgrant⟩

/-- One invocation is granted the permit, and another is refused it just before its time is
    over. -/
def Contest.requests : List Request :=
  [.setClock 100, .apply "first", .setClock 60099, .apply "second", .checkAndRelease "second",
    .setClock 60100]

theorem one_holder_at_a_time_contest :
    0 < ({} : Config).permitTtl ∧
      LastGrant ((({} : Config).monitor 0).permitLog Contest.requests) "first" 100 [] ∧
      (((({} : Config).monitor 0).performAll Contest.requests).apply "third").1 = true ∧
      (((({} : Config).monitor 0).performAll Contest.requests).checkAndRelease
        "first").1 = true := by
  have hlasts : 0 < ({} : Config).permitTtl := by decide
  have hlast :
      LastGrant ((({} : Config).monitor 0).permitLog Contest.requests) "first" 100 [] :=
    ⟨[], by decide, by simp⟩
  obtain ⟨-, hnext, hreturn, -⟩ := one_holder_at_a_time {} 0 Contest.requests hlasts
  refine ⟨hlasts, hlast, ((hnext "first" 100 [] hlast).1 "third").mpr (.inr (by decide)),
    (hreturn "first").mpr ⟨100, [], hlast, ?_⟩⟩
  rintro (h | h) <;> simp at h

end Monitor

end ServiceFinder
