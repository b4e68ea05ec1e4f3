import Mathlib.Data.List.Induction
import Mathlib.Logic.Function.Basic

/-! The last write to a key.

A list of writes stands for the finite map in which every key has the value written to it
last (`lastWrite`). One more write updates that map (`lastWrite_snoc`), a value is a key's
last if no later write has the key (`lastWrite_eq_some_iff`), and where no key is written
twice the map is the list (`lastWrite_of_nodup`). -/
namespace CidrTable

variable {κ α β : Type} [DecidableEq κ]

/-- The value written to a key last. -/
def lastWrite (writes : List (κ × α)) (k : κ) : Option α := writes.reverse.lookup k

theorem lastWrite_snoc (writes : List (κ × α)) (k : κ) (x : α) :
    lastWrite (writes ++ [(k, x)]) = Function.update (lastWrite writes) k (some x) := by
  funext j
  rw [lastWrite, List.reverse_append, List.reverse_singleton, List.singleton_append, List.lookup_cons]
  by_cases hj : j = k
  · simp [hj]
  · rw [Function.update_of_ne hj, beq_eq_false_iff_ne.mpr hj]
    rfl

/-- An earlier write counts where no later one has its key. -/
theorem lastWrite_cons (writes : List (κ × α)) (k : κ) (x : α) (j : κ) :
    lastWrite ((k, x) :: writes) j = (lastWrite writes j).or (if j = k then some x else none) := by
  rw [lastWrite, List.reverse_cons, List.lookup_append, List.lookup_cons]
  by_cases hj : j = k
  · rw [if_pos hj, beq_iff_eq.mpr hj]
    rfl
  · rw [if_neg hj, beq_eq_false_iff_ne.mpr hj]
    rfl

/-- A value is a key's last exactly if no later write has the key. -/
theorem lastWrite_eq_some_iff (writes : List (κ × α)) (k : κ) (x : α) :
    lastWrite writes k = some x ↔
      ∃ before after, writes = before ++ (k, x) :: after ∧ ∀ e ∈ after, e.1 ≠ k := by
  rw [lastWrite, List.lookup_eq_some_iff]
  constructor
  · intro h
    obtain ⟨after, before, hrev, hafter⟩ := h
    refine ⟨before.reverse, after.reverse, ?_, fun e he => ?_⟩
    · rw [← List.reverse_reverse writes, hrev]
      simp
    · exact (bne_iff_ne.mp (hafter e (List.mem_reverse.mp he))).symm
  · intro h
    obtain ⟨before, after, rfl, hafter⟩ := h
    refine ⟨after.reverse, before.reverse, by simp, fun e he => ?_⟩
    exact bne_iff_ne.mpr (hafter e (List.mem_reverse.mp he)).symm

theorem lastWrite_eq_none_iff (writes : List (κ × α)) (k : κ) :
    lastWrite writes k = none ↔ ∀ e ∈ writes, e.1 ≠ k := by
  rw [lastWrite, List.lookup_eq_none_iff]
  constructor
  · exact fun h e he => (bne_iff_ne.mp (h e (List.mem_reverse.mpr he))).symm
  · exact fun h e he => bne_iff_ne.mpr (h e (List.mem_reverse.mp he)).symm

theorem mem_of_lastWrite {writes : List (κ × α)} {k : κ} {x : α} (h : lastWrite writes k = some x) :
    (k, x) ∈ writes := by
  obtain ⟨before, after, rfl, _⟩ := (lastWrite_eq_some_iff writes k x).mp h
  simp

theorem lastWrite_of_nodup {writes : List (κ × α)} (h : (writes.map Prod.fst).Nodup) (k : κ) (x : α) :
    lastWrite writes k = some x ↔ (k, x) ∈ writes := by
  constructor
  · exact mem_of_lastWrite
  · intro hmem
    obtain ⟨before, after, rfl⟩ := List.append_of_mem hmem
    refine (lastWrite_eq_some_iff _ k x).mpr ⟨before, after, rfl, fun e he hek => ?_⟩
    rw [List.map_append, List.map_cons, List.nodup_append] at h
    exact (List.nodup_cons.mp h.2.1).1 (List.mem_map.mpr ⟨e, he, hek⟩)

/-- Renaming keys and converting values keeps the last write to a key that no other key is
renamed to. -/
theorem lastWrite_map_of_apart {ι : Type} [DecidableEq ι] (f : κ → ι) (g : α → β)
    (writes : List (κ × α)) (k : κ) (hf : ∀ e ∈ writes, f e.1 = f k → e.1 = k) :
    lastWrite (writes.map fun e => (f e.1, g e.2)) (f k) = (lastWrite writes k).map g := by
  induction writes using List.reverseRecOn with
  | nil => rfl
  | append_singleton writes e ih =>
    have hlast := hf e (List.mem_append_right _ (List.mem_singleton_self e))
    rw [List.map_append, List.map_singleton, lastWrite_snoc, lastWrite_snoc]
    by_cases hk : k = e.1
    · simp [hk]
    · rw [Function.update_of_ne (fun h => hk (hlast h.symm).symm), Function.update_of_ne hk,
        ih fun e he => hf e (List.mem_append_left _ he)]

/-- Renaming keys apart and converting values keeps the last writes. -/
theorem lastWrite_map {ι : Type} [DecidableEq ι] (f : κ → ι) (hf : Function.Injective f) (g : α → β)
    (writes : List (κ × α)) (k : κ) :
    lastWrite (writes.map fun e => (f e.1, g e.2)) (f k) = (lastWrite writes k).map g :=
  lastWrite_map_of_apart f g writes k fun _ _ h => hf h

end CidrTable
