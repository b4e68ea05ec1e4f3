import CidrTable.Fields
import CidrTable.Proofs.LastWrite
import Mathlib.Data.List.Nodup

/-! Fields are the last writes in order of the keys.

`put` keeps the order of the keys (`sorted_put`), so the fields left by a list of pairs are
sorted (`sorted_ofPairs`) and hold each key's last value (`mem_ofPairs`). Fields in order
are known by their members (`eq_of_mem_iff`), and putting them once more changes nothing
(`ofPairs_of_sorted`). -/
namespace CidrTable.Fields

variable {α β : Type}

/-- The keys rise. -/
def Sorted (fields : Fields α) : Prop := fields.Pairwise fun a b => a.1 < b.1

/-! ### One pair -/

theorem of_mem_put (fields : Fields α) (key : String) (x : α) (e : String × α)
    (h : e ∈ fields.put key x) : e = (key, x) ∨ e ∈ fields := by
  induction fields with
  | nil => exact .inl (List.mem_singleton.mp h)
  | cons f rest ih =>
    rw [put] at h
    split at h
    · exact List.mem_cons.mp h
    · split at h
      · rcases List.mem_cons.mp h with h | h
        · exact .inl h
        · exact .inr (List.mem_cons_of_mem _ h)
      · rcases List.mem_cons.mp h with h | h
        · exact .inr (h ▸ List.mem_cons_self)
        · exact (ih h).imp_right (List.mem_cons_of_mem _)

theorem sorted_put (fields : Fields α) (key : String) (x : α) (hs : Sorted fields) :
    Sorted (fields.put key x) := by
  induction fields with
  | nil => exact List.pairwise_singleton _ _
  | cons f rest ih =>
    obtain ⟨hhead, hrest⟩ := List.pairwise_cons.mp hs
    rw [put]
    split
    case isTrue hlt =>
      refine List.pairwise_cons.mpr ⟨fun e he => ?_, hs⟩
      rcases List.mem_cons.mp he with rfl | he
      · exact hlt
      · exact String.lt_trans hlt (hhead e he)
    case isFalse hge =>
      split
      case isTrue heq => exact List.pairwise_cons.mpr ⟨fun e he => heq ▸ hhead e he, hrest⟩
      case isFalse hne =>
        refine List.pairwise_cons.mpr ⟨fun e he => ?_, ih hrest⟩
        rcases of_mem_put rest key x e he with rfl | he
        · exact Std.lt_of_le_of_ne (String.not_lt.mp hge) (Ne.symm hne)
        · exact hhead e he

/-- What stands under a key where the least key is known. -/
theorem mem_cons_of_lt (fields : Fields α) (key k : String) (x y : α) (h : ∀ e ∈ fields, key < e.1) :
    (k, y) ∈ (key, x) :: fields ↔ if k = key then y = x else (k, y) ∈ fields := by
  rw [List.mem_cons, Prod.mk.injEq]
  split
  case isTrue hk =>
    have hnot : (k, y) ∉ fields := fun he => String.lt_irrefl key (by simpa [hk] using h _ he)
    rw [or_iff_left hnot, and_iff_right hk]
  case isFalse hk => simp [hk]

/-- **What stands under a key after a pair was put.** -/
theorem mem_put (fields : Fields α) (key k : String) (x y : α) (hs : Sorted fields) :
    (k, y) ∈ fields.put key x ↔ if k = key then y = x else (k, y) ∈ fields := by
  induction fields with
  | nil => exact mem_cons_of_lt [] key k x y nofun
  | cons f rest ih =>
    obtain ⟨hhead, hrest⟩ := List.pairwise_cons.mp hs
    rw [put]
    split
    case isTrue hlt =>
      refine mem_cons_of_lt _ key k x y fun e he => ?_
      rcases List.mem_cons.mp he with rfl | he
      · exact hlt
      · exact String.lt_trans hlt (hhead e he)
    case isFalse hge =>
      split
      case isTrue heq =>
        rw [mem_cons_of_lt rest key k x y fun e he => heq ▸ hhead e he]
        split
        case isTrue => rfl
        case isFalse hk =>
          have hf : (k, y) ≠ f := fun h => hk ((congrArg Prod.fst h).trans heq.symm)
          rw [List.mem_cons, or_iff_right hf]
      case isFalse hne =>
        rw [List.mem_cons, ih hrest]
        split
        case isTrue hk =>
          have hf : (k, y) ≠ f := fun h => hne (hk.symm.trans (congrArg Prod.fst h))
          exact or_iff_right hf
        case isFalse => exact List.mem_cons.symm

theorem get?_cons (e : String × α) (fields : Fields α) (k : String) :
    get? (e :: fields) k = if k = e.1 then some e.2 else fields.get? k := by
  rw [get?, List.lookup_cons]
  by_cases hk : k = e.1
  · rw [if_pos hk, beq_iff_eq.mpr hk]
  · rw [if_neg hk, beq_eq_false_iff_ne.mpr hk]
    rfl

/-- **The value under a key after a pair was put**, in whatever order the fields are. -/
theorem get?_put (fields : Fields α) (key k : String) (x : α) :
    (fields.put key x).get? k = if k = key then some x else fields.get? k := by
  induction fields with
  | nil => exact get?_cons (key, x) [] k
  | cons f rest ih =>
    rw [put]
    split
    case isTrue => exact get?_cons (key, x) (f :: rest) k
    case isFalse =>
      split
      case isTrue heq =>
        rw [get?_cons, get?_cons f, ← heq]
        by_cases hk : k = key
        · rw [if_pos hk, if_pos hk]
        · rw [if_neg hk, if_neg hk, if_neg hk]
      case isFalse hne =>
        rw [get?_cons, get?_cons f, ih]
        by_cases hk : k = key
        · rw [if_neg fun h => hne (hk.symm.trans h), if_pos hk, if_pos hk]
        · rw [if_neg hk, if_neg hk]

/-! ### Pairs in turn -/

theorem ofPairs_snoc (pairs : List (String × α)) (key : String) (x : α) :
    ofPairs (pairs ++ [(key, x)]) = (ofPairs pairs).put key x := by
  rw [ofPairs, List.foldl_append]
  rfl

theorem sorted_ofPairs (pairs : List (String × α)) : Sorted (ofPairs pairs) := by
  induction pairs using List.reverseRecOn with
  | nil => exact List.Pairwise.nil
  | append_singleton pairs e ih =>
    rw [ofPairs_snoc]
    exact sorted_put _ _ _ ih

/-- **The fields hold each key's last value.** -/
theorem mem_ofPairs (pairs : List (String × α)) (k : String) (x : α) :
    (k, x) ∈ ofPairs pairs ↔ lastWrite pairs k = some x := by
  induction pairs using List.reverseRecOn with
  | nil => exact ⟨nofun, nofun⟩
  | append_singleton pairs e ih =>
    rw [ofPairs_snoc, mem_put _ _ _ _ _ (sorted_ofPairs pairs), lastWrite_snoc, Function.update_apply]
    split
    case isTrue => exact ⟨fun h => h ▸ rfl, fun h => (Option.some.inj h).symm⟩
    case isFalse => exact ih

theorem exists_mem_ofPairs_iff (pairs : List (String × α)) (k : String) :
    (∃ x, (k, x) ∈ ofPairs pairs) ↔ ∃ x, (k, x) ∈ pairs := by
  constructor
  · intro h
    obtain ⟨x, hx⟩ := h
    exact ⟨x, mem_of_lastWrite ((mem_ofPairs pairs k x).mp hx)⟩
  · intro h
    obtain ⟨x, hx⟩ := h
    have hsome : lastWrite pairs k ≠ none := fun hnone =>
      (lastWrite_eq_none_iff pairs k).mp hnone (k, x) hx rfl
    obtain ⟨y, hy⟩ := Option.ne_none_iff_exists'.mp hsome
    exact ⟨y, (mem_ofPairs pairs k y).mpr hy⟩

/-! ### Fields in order -/

theorem Sorted.nodup {fields : Fields α} (hs : Sorted fields) : (fields.map Prod.fst).Nodup := by
  refine List.pairwise_map.mpr (List.Pairwise.imp (fun {a b} h heq => ?_) hs)
  rw [heq] at h
  exact String.lt_irrefl b.1 h

/-- Putting pairs in order forgets overridden ones only. -/
theorem lastWrite_ofPairs (pairs : List (String × α)) (k : String) :
    lastWrite (ofPairs pairs) k = lastWrite pairs k := by
  apply Option.ext
  intro x
  rw [lastWrite_of_nodup (sorted_ofPairs pairs).nodup, mem_ofPairs]

/-- Fields in order are known by their members. -/
theorem eq_of_mem_iff (a b : Fields α) (ha : Sorted a) (hb : Sorted b)
    (h : ∀ e, e ∈ a ↔ e ∈ b) : a = b := by
  have hperm : a.Perm b := (List.perm_ext_iff_of_nodup (ha.nodup.of_map _) (hb.nodup.of_map _)).mpr h
  exact hperm.eq_of_pairwise (fun _ _ _ _ hlt hgt => absurd hgt (String.lt_asymm hlt)) ha hb

/-- Fields in order are what putting them leaves. -/
theorem ofPairs_of_sorted (fields : Fields α) (hs : Sorted fields) : ofPairs fields = fields := by
  refine eq_of_mem_iff _ _ (sorted_ofPairs fields) hs fun e => ?_
  rw [mem_ofPairs, lastWrite_of_nodup hs.nodup]

theorem ofPairs_map (g : α → β) (pairs : List (String × α)) :
    ofPairs (pairs.map fun e => (e.1, g e.2)) = (ofPairs pairs).map fun e => (e.1, g e.2) := by
  have hsorted : Sorted ((ofPairs pairs).map fun e => (e.1, g e.2)) :=
    List.pairwise_map.mpr (sorted_ofPairs pairs)
  refine eq_of_mem_iff _ _ (sorted_ofPairs _) hsorted fun e => ?_
  have hlast : lastWrite (pairs.map fun e => (e.1, g e.2)) e.1 = (lastWrite pairs e.1).map g :=
    lastWrite_map id Function.injective_id g pairs e.1
  rw [mem_ofPairs, hlast, Option.map_eq_some_iff, List.mem_map]
  constructor
  · intro h
    obtain ⟨x, hx, hgx⟩ := h
    exact ⟨(e.1, x), (mem_ofPairs pairs e.1 x).mpr hx, Prod.ext rfl hgx⟩
  · intro h
    obtain ⟨⟨k, x⟩, hx, rfl⟩ := h
    exact ⟨x, (mem_ofPairs pairs k x).mp hx, rfl⟩

end CidrTable.Fields
