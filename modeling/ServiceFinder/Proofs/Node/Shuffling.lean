/-
  ServiceFinder/Proofs/Node/Shuffling.lean
  ========================================
  **The order of the cached views does not matter.**

  A node keeps its cached views in the order in which they were made, and a sweep goes through
  them in that order.  Nothing that is known of a node between two turns depends on it: were the
  views kept in any other order, all of it would be true as well.
-/
import ServiceFinder.Proofs.Node.Telling

namespace ServiceFinder

variable {σ : Type}

/-- The node with its views cached in this order. -/
def Node.shuffled (n : Node σ) (cached : List (ServiceKey × EntryId)) : Node σ :=
  { n with directory := { n.directory with cached } }

section Shuffling

variable {n : Node σ} {cached : List (ServiceKey × EntryId)}

theorem Filed.shuffle (h : Filed n) (order : cached.Perm n.directory.cached) :
    Filed (n.shuffled cached) where
  keys := (order.map (·.1)).nodup_iff.mpr h.keys
  made hmem := h.made (order.subset hmem)
  kept hlt hkept := order.symm.subset (h.kept hlt hkept)
  evicted := h.evicted
  created := h.created

theorem Sound.shuffle (h : Sound (⟨n, none, none⟩ : Midturn σ)) :
    Sound (⟨n.shuffled cached, none, none⟩ : Midturn σ) where
  orderly := ⟨h.orderly.nodup, h.orderly.below⟩
  inLine := h.inLine.of_eq (fun _ => rfl) (fun _ _ _ _ => .rfl) rfl
  told e := (h.told e).of_eq rfl rfl rfl (Nat.le_refl _) .rfl ⟨[], rfl, by simp⟩

theorem AllFirst.shuffle (h : AllFirst (⟨n, none, none⟩ : Midturn σ)) :
    AllFirst (⟨n.shuffled cached, none, none⟩ : Midturn σ) := by
  have hapart : Apart (⟨n, none, none⟩ : Midturn σ) ⟨n.shuffled cached, none, none⟩ :=
    .of_eq (fun _ => rfl) rfl rfl rfl (fun _ => .rfl) ⟨rfl, rfl⟩ ⟨rfl, rfl⟩ nofun rfl
  exact fun e he => (h e he).of_apart hapart

theorem Sweeping.shuffle (h : Sweeping (⟨n, none, none⟩ : Midturn σ)) :
    Sweeping (⟨n.shuffled cached, none, none⟩ : Midturn σ) := by
  have hclear : Clear (⟨n, none, none⟩ : Midturn σ) ⟨n.shuffled cached, none, none⟩ :=
    ⟨rfl, fun _ => .rfl, nofun, nofun⟩
  exact h.of_same (h.line.of_clear hclear) hclear.pass_iff (fun _ _ => .refl _) ⟨[], rfl, by simp⟩
    fun _ hover => hover

theorem Audited.shuffle (h : Audited (⟨n, none, none⟩ : Midturn σ))
    (order : cached.Perm n.directory.cached) :
    Audited (⟨n.shuffled cached, none, none⟩ : Midturn σ) where
  regular := ⟨h.regular.sound.shuffle, h.regular.first.shuffle, h.regular.filed.shuffle order⟩
  sweeping := h.sweeping.shuffle
  accounts := ⟨h.accounts.fresh, h.accounts.calls, nofun⟩

theorem Brisk.shuffle (h : Brisk (⟨n, none, none⟩ : Midturn σ))
    (order : cached.Perm n.directory.cached) :
    Brisk (⟨n.shuffled cached, none, none⟩ : Midturn σ) where
  steady := ⟨h.steady.sound.shuffle, ⟨h.steady.punctual.calls, nofun⟩, h.steady.first.shuffle,
    h.steady.filed.shuffle order⟩
  sweeping := h.sweeping.shuffle
  mustered := h.mustered

end Shuffling

end ServiceFinder
