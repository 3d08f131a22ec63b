/-
  ServiceFinder/Proofs/Balance/Rotation.lean
  ==========================================
  **How evenly servers are picked in turn.**

  Rotation numbers its turns, and the number alone says which position of a list is picked.  So
  turns that follow each other go round any list of servers.  A list that gets only some of the
  turns is gone round if each of its turns is the next one modulo its length; otherwise the
  turns in between skip positions.
-/
import Mathlib.Algebra.Order.Floor.Div
import Mathlib.Data.Int.CardIntervalMod
import ServiceFinder.Proofs.Balance.Choice
import ServiceFinder.Service.Key

namespace ServiceFinder

/-! ### Choices that take a turn -/

theorem Rule.next_nil {α : Type} (r : Rule) : r.next ([] : List α) = (none, r) := by
  cases r <;> rfl

theorem Rule.next_roundRobin {α : Type} {servers : List α} {r : Rotation} {s : α} {rule : Rule}
    (h : (Rule.roundRobin r).next servers = (some s, rule)) :
    servers[r.turns.toNat % servers.length]? = some s ∧ rule = .roundRobin ⟨r.turns + 1⟩ := by
  unfold next Rotation.next at h
  cases servers with
  | nil => cases h
  | cons server rest =>
    obtain ⟨hserver, hrule⟩ := Prod.mk.inj h
    exact ⟨hserver, hrule.symm⟩

/-- The servers that can be picked, by what is known at the beginning: all that are eligible and
    not isolated. -/
def Monitor.candidates (servers : List Instance) (m : Monitor) : List Instance :=
  servers.filter fun s => s.eligible && !m.isolates s.instanceId

/-- A selection takes a turn among the candidates, unless it is a probe. -/
theorem Balancer.rule_choose {b : Balancer} (h : b.monitor.tracker.Apart)
    (servers : List Instance) (i : Invocation) :
    match (b.choose servers i).1 with
    | none => (b.choose servers i).2.rule = b.rule
    | some s =>
      if s.probe then (b.choose servers i).2.rule = b.rule
      else b.rule.next (b.monitor.candidates servers) =
        (some s.server, (b.choose servers i).2.rule) := by
  have hscreen := Monitor.screen_fst h i servers
  unfold Monitor.screening at hscreen
  unfold choose
  rcases hfound : b.monitor.screen i servers with ⟨found, m⟩
  rw [hfound] at hscreen
  cases hfind : servers.find? fun s => s.eligible && b.monitor.probes s.instanceId with
  | some server =>
    rw [hfind] at hscreen
    cases hscreen
    rfl
  | none =>
    rw [hfind] at hscreen
    cases hscreen
    dsimp only
    rcases hnext : b.rule.next (b.monitor.candidates servers) with ⟨_ | server, rule⟩
    · have hnil := Rule.next_eq_none_iff.mp (congrArg Prod.fst hnext)
      rw [hnil, Rule.next_nil] at hnext
      cases hnext
      unfold Monitor.candidates at hnil
      rw [hnil, Rule.next_nil]
      rfl
    · unfold Monitor.candidates at hnext
      rw [hnext]
      rfl

/-! ### Turns of many keys -/

/-- A selection, the key that it was made for, and the servers that it was picked from. -/
structure Pick where
  key : ServiceKey
  candidates : List Instance
  selection : Selection
deriving DecidableEq, Repr

/-- Each pick takes the position that its turn says, the first one taking turn `c`. -/
def InTurn (c : Nat) (picks : List Pick) : Prop :=
  ∀ p t, (p, t) ∈ picks.zipIdx c →
    p.candidates[t % p.candidates.length]? = some p.selection.server

theorem inTurn_cons {c : Nat} {p : Pick} {picks : List Pick} :
    InTurn c (p :: picks) ↔
      p.candidates[c % p.candidates.length]? = some p.selection.server ∧ InTurn (c + 1) picks := by
  unfold InTurn
  rw [List.zipIdx_cons]
  constructor
  · intro h
    exact ⟨h p c List.mem_cons_self, fun q t hq => h q t (List.mem_cons_of_mem _ hq)⟩
  · rintro ⟨hp, hrest⟩ q t hq
    rcases List.mem_cons.mp hq with heq | hq
    · cases heq
      exact hp
    · exact hrest q t hq

/-- The picks for the key. -/
def picksFor (key : ServiceKey) (picks : List Pick) : List Pick := picks.filter (·.key = key)

/-- The turns that the picks for the key took. -/
def turnsFor (key : ServiceKey) (c : Nat) (picks : List Pick) : List Nat :=
  ((picks.zipIdx c).filter (·.1.key = key)).map (·.2)

/-- From one turn for the key to the next, the number of turns for others is a multiple of `n`. -/
def Spaced (key : ServiceKey) (n c : Nat) (picks : List Pick) : Prop :=
  (turnsFor key c picks).IsChain fun t t' => n ∣ t' - (t + 1)

instance (key : ServiceKey) (n c : Nat) (picks : List Pick) :
    Decidable (Spaced key n c picks) := by
  unfold Spaced
  infer_instance

/-- What was chosen is at positions of the list that were taken equally often, up to one. -/
def Even (servers chosen : List Instance) : Prop :=
  ∃ positions : List Nat, chosen.map some = positions.map (servers[·]?) ∧
    ∀ x < servers.length, ∀ y < servers.length, positions.count x ≤ positions.count y + 1

/-- Of servers that are listed once, none was chosen twice more often than another. -/
theorem Even.count_le {servers chosen : List Instance} (h : Even servers chosen)
    (nodup : servers.Nodup) {s s' : Instance} (hs : s ∈ servers) (hs' : s' ∈ servers) :
    chosen.count s ≤ chosen.count s' + 1 := by
  obtain ⟨positions, hmap, heven⟩ := h
  have hcount {s : Instance} {x : Nat} (hx : x < servers.length) (hxs : servers[x] = s) :
      chosen.count s = positions.count x := by
    have hsome : chosen.count s = (chosen.map some).count (some s) :=
      (List.count_map_of_injective _ _ (Option.some_injective _) _).symm
    rw [hsome, hmap, List.count, List.countP_map]
    refine List.countP_congr ?_
    intro y hy
    have hys : servers[y]? ∈ chosen.map some := hmap ▸ List.mem_map_of_mem hy
    obtain ⟨s', -, hs'⟩ := List.mem_map.mp hys
    obtain ⟨hy', -⟩ := List.getElem?_eq_some_iff.mp hs'.symm
    simp only [Function.comp_apply, beq_iff_eq]
    rw [← hxs, List.getElem?_eq_getElem hy', Option.some.injEq]
    exact nodup.getElem_inj_iff
  obtain ⟨x, hx, hxs⟩ := List.getElem_of_mem hs
  obtain ⟨y, hy, hys⟩ := List.getElem_of_mem hs'
  rw [hcount hx hxs, hcount hy hys]
  exact heven x hx y hy

/-! ### Turns that follow each other -/

/-- Of `m` consecutive numbers each remainder has its `n`-th part, rounded down or up. -/
theorem count_mod_eq {n : Nat} (t m : Nat) {x : Nat} (hx : x < n) :
    Nat.count (fun k => (t + k) % n = x) m = m / n ∨
      Nat.count (fun k => (t + k) % n = x) m = m ⌈/⌉ n := by
  have hn : 0 < n := Nat.zero_lt_of_lt hx
  -- the first number that has the remainder is so far after `t`, give or take a round
  have hmod (k : Nat) : (t + k) % n = x ↔ k ≡ x + (n - t % n) [MOD n] := by
    have hround : t + (x + (n - t % n)) = x + n * (t / n + 1) := by
      have hdiv := Nat.div_add_mod t n
      have hlt := Nat.mod_lt t hn
      rw [Nat.mul_succ]
      omega
    have hsame : t + (x + (n - t % n)) ≡ x [MOD n] := by
      rw [hround, Nat.ModEq, Nat.add_mul_mod_self_left]
    calc
      (t + k) % n = x ↔ t + k ≡ x [MOD n] := by rw [Nat.ModEq, Nat.mod_eq_of_lt hx]
      _ ↔ t + k ≡ t + (x + (n - t % n)) [MOD n] :=
        ⟨fun h => h.trans hsame.symm, fun h => h.trans hsame⟩
      _ ↔ k ≡ x + (n - t % n) [MOD n] := Nat.ModEq.add_iff_left rfl
  simp only [hmod]
  rw [Nat.count_modEq_card _ hn]
  split
  · right
    rename_i hlt
    have hdiv := Nat.div_add_mod m n
    rw [Nat.ceilDiv_eq_add_pred_div]
    symm
    refine Nat.div_eq_of_lt_le ?_ ?_
    · rw [Nat.add_mul, Nat.mul_comm]
      omega
    · rw [Nat.add_mul, Nat.add_mul, Nat.mul_comm]
      have hmn := Nat.mod_lt m hn
      omega
  · exact .inl rfl

/-- So many consecutive numbers have each remainder equally often, up to one. -/
theorem count_mod_le {n : Nat} (t m : Nat) {x y : Nat} (hx : x < n) (hy : y < n) :
    Nat.count (fun k => (t + k) % n = x) m ≤ Nat.count (fun k => (t + k) % n = y) m + 1 := by
  have hn : 0 < n := Nat.zero_lt_of_lt hx
  have hle : m / n ≤ m ⌈/⌉ n := by
    rw [← Nat.floorDiv_eq_div]
    exact floorDiv_le_ceilDiv
  have hsucc : m ⌈/⌉ n ≤ m / n + 1 := by
    rw [Nat.ceilDiv_eq_add_pred_div, ← Nat.add_div_right m hn]
    exact Nat.div_le_div_right (Nat.pred_le _)
  rcases count_mod_eq t m hx with hx | hx <;> rcases count_mod_eq t m hy with hy | hy <;> omega

section Turns

variable {key : ServiceKey} {c n : Nat} {p : Pick} {picks : List Pick}

theorem turnsFor_cons_self (h : p.key = key) (c : Nat) (picks : List Pick) :
    turnsFor key c (p :: picks) = c :: turnsFor key (c + 1) picks := by
  simp [turnsFor, List.zipIdx_cons, h]

theorem turnsFor_cons_of_ne (h : p.key ≠ key) (c : Nat) (picks : List Pick) :
    turnsFor key c (p :: picks) = turnsFor key (c + 1) picks := by
  simp [turnsFor, List.zipIdx_cons, h]

theorem pairwise_turnsFor (key : ServiceKey) (c : Nat) (picks : List Pick) :
    (turnsFor key c picks).Pairwise (· < ·) := by
  have hsub : (turnsFor key c picks).Sublist ((picks.zipIdx c).map (·.2)) :=
    List.filter_sublist.map _
  rw [List.zipIdx_map_snd] at hsub
  exact (List.pairwise_lt_range' ..).sublist hsub

/-- The turns of a key that is spaced go round one position after the other. -/
theorem count_of_spaced {t : Nat} {ts : List Nat}
    (h : (t :: ts).IsChain fun t t' => n ∣ t' - (t + 1)) (sorted : (t :: ts).Pairwise (· < ·))
    (x : Nat) :
    ((t :: ts).map (· % n)).count x = Nat.count (fun k => (t + k) % n = x) (ts.length + 1) := by
  induction ts generalizing t with
  | nil => simp [Nat.count_succ, List.count_singleton]
  | cons t' ts ih =>
    obtain ⟨⟨q, hq⟩, hrest⟩ := List.isChain_cons_cons.mp h
    obtain ⟨hlt, hsorted⟩ := List.pairwise_cons.mp sorted
    have hnext := hlt t' List.mem_cons_self
    have hshift (k : Nat) : (t' + k) % n = (t + (k + 1)) % n := by
      have ht' : t' + k = t + (k + 1) + n * q := by omega
      rw [ht', Nat.add_mul_mod_self_left]
    rw [List.map_cons, List.count_cons, ih hrest hsorted, List.length_cons,
      Nat.count_succ' (p := fun k => (t + k) % n = x)]
    simp only [hshift, Nat.add_zero, beq_iff_eq]

/-- **A key that is spaced is served evenly**, as long as its candidates stay the same. -/
theorem InTurn.even (h : InTurn c picks) {servers : List Instance}
    (same : ∀ p ∈ picks, p.key = key → p.candidates = servers)
    (spaced : Spaced key servers.length c picks) :
    Even servers ((picksFor key picks).map (·.selection.server)) := by
  refine ⟨(turnsFor key c picks).map (· % servers.length), ?_, ?_⟩
  · clear spaced
    induction picks generalizing c with
    | nil => rfl
    | cons p picks ih =>
      obtain ⟨hhead, htail⟩ := inTurn_cons.mp h
      have hrest := ih htail (fun q hq => same q (List.mem_cons_of_mem _ hq))
      by_cases hp : p.key = key
      · rw [same p List.mem_cons_self hp] at hhead
        rw [turnsFor_cons_self hp, picksFor, List.filter_cons_of_pos (by simpa using hp)]
        simp only [List.map_cons, hhead]
        exact congrArg _ hrest
      · rw [turnsFor_cons_of_ne hp, picksFor, List.filter_cons_of_neg (by simpa using hp)]
        exact hrest
  · intro x hx y hy
    have hsorted := pairwise_turnsFor key c picks
    unfold Spaced at spaced
    cases hts : turnsFor key c picks with
    | nil => exact Nat.zero_le _
    | cons t ts =>
      rw [hts] at spaced hsorted
      rw [count_of_spaced spaced hsorted, count_of_spaced spaced hsorted]
      exact count_mod_le t _ hx hy

end Turns

end ServiceFinder
