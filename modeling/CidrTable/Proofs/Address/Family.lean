import CidrTable.Proofs.Address.Text
import Mathlib.Data.Option.Basic

/-! The family of an address text.

An IPv6 text has a colon in it and a dotted quad has none, so a text is an address of one
family at most and reading it finds that one (`read?_eq_some_iff`). Digits alone are no
address (`not_spelled_of_isDigit`), and no address has a slash in it
(`Spelled.not_mem_slash`). -/
namespace CidrTable.Address

/-- The text denotes the address in the syntax of the address's family. -/
def Spelled (cs : List Char) : Address → Prop
  | .v4 bits => readV4? cs = some bits
  | .v6 bits => readV6? cs = some bits

/-! ### Colons -/

/-- Without a colon there are two groups at most. -/
theorem side?_of_no_colon (quad : Bool) (cs : List Char) (h : ':' ∉ cs) (gs : List (BitVec 16))
    (hgs : side? quad cs = some gs) : gs.length ≤ 2 := by
  have hone : ∀ gs, (group? cs).map ([·]) = some gs → gs.length ≤ 2 := by
    intro gs hgs
    obtain ⟨g, -, rfl⟩ := Option.map_eq_some_iff.mp hgs
    exact Nat.le_of_ble_eq_true rfl
  unfold side? at hgs
  split at hgs
  · rw [← Option.some.inj hgs]
    exact Nat.zero_le 2
  · rw [List.splitOn_eq_singleton h, groupList?] at hgs
    split at hgs
    · rcases (Option.orElse_eq_some _ _ _).mp hgs with hquad | ⟨-, hgroup⟩
      · obtain ⟨b, -, rfl⟩ := Option.map_eq_some_iff.mp hquad
        exact Nat.le_refl 2
      · exact hone gs hgroup
    · exact hone gs hgs

theorem readV6?_of_no_colon (cs : List Char) (h : ':' ∉ cs) : readV6? cs = none := by
  have hcut : cutAtGap? cs = none := by
    have hword := cutAtGap?_word cs [] h
    rwa [List.append_nil] at hword
  rw [readV6?, hcut]
  dsimp only
  cases hgs : side? true cs with
  | none => rfl
  | some gs =>
    have hlen := side?_of_no_colon true cs h gs hgs
    have hguard : ¬ (gs.length == 8) = true := by
      rw [beq_iff_eq]
      omega
    rw [Option.bind_eq_bind, Option.bind_some,
      show (guard (gs.length == 8) : Option Unit) = none from if_neg hguard]
    rfl

/-- **Reading an address finds the family it is spelled in.** -/
theorem read?_eq_some_iff (cs : List Char) (a : Address) : read? cs = some a ↔ Spelled cs a := by
  cases h4 : readV4? cs with
  | some x =>
    have h6 : readV6? cs = none := by
      refine readV6?_of_no_colon cs fun hcolon => ?_
      rw [readV4?_of_colon cs hcolon] at h4
      cases h4
    have hread : read? cs = some (.v4 x) := by rw [read?, h4]; rfl
    cases a with
    | v4 bits => simp [hread, Spelled, h4]
    | v6 bits => simp [hread, Spelled, h6]
  | none =>
    have hread : read? cs = (readV6? cs).map .v6 := by rw [read?, h4]; rfl
    cases a with
    | v4 bits => simp [hread, Spelled, h4]
    | v6 bits => simp [hread, Spelled]

/-- Digits alone are no address. -/
theorem not_spelled_of_isDigit (cs : List Char) (h : ∀ c ∈ cs, c.isDigit = true) (a : Address) :
    ¬ Spelled cs a := by
  have hdot : '.' ∉ cs := fun hc => absurd (h '.' hc) (by decide)
  have hcolon : ':' ∉ cs := fun hc => absurd (h ':' hc) (by decide)
  cases a with
  | v4 bits => simp [Spelled, readV4?_of_no_dot cs hdot]
  | v6 bits => simp [Spelled, readV6?_of_no_colon cs hcolon]

/-! ### Slashes -/

theorem not_mem_slash_of_readV4? (cs : List Char) (a : BitVec 32) (h : readV4? cs = some a) :
    '/' ∉ cs := by
  intro hc
  rcases mem_of_readV4? cs a h '/' hc with hdot | hdigit
  · exact absurd hdot (by decide)
  · exact hdigit (Text.digit?_mark 10).2.2

theorem not_mem_slash_of_group? (cs : List Char) (g : BitVec 16) (h : group? cs = some g) :
    '/' ∉ cs := by
  intro hc
  cases hn : Text.ofDigits? 16 cs with
  | none =>
    rw [group?, hn] at h
    cases h
  | some n => exact Text.digit?_of_ofDigits? cs n hn '/' hc (Text.digit?_mark 16).2.2

theorem not_mem_slash_of_groupList? (quad : Bool) (parts : List (List Char))
    (gs : List (BitVec 16)) (h : groupList? quad parts = some gs) : ∀ part ∈ parts, '/' ∉ part := by
  fun_induction groupList? quad parts generalizing gs with
  | case1 => nofun
  | case2 part hquad =>
    intro q hq
    rw [List.mem_singleton.mp hq]
    rcases (Option.orElse_eq_some _ _ _).mp h with h4 | ⟨-, hgroup⟩
    · obtain ⟨b, hb, -⟩ := Option.map_eq_some_iff.mp h4
      exact not_mem_slash_of_readV4? part b hb
    · obtain ⟨g, hg, -⟩ := Option.map_eq_some_iff.mp hgroup
      exact not_mem_slash_of_group? part g hg
  | case3 part hquad =>
    intro q hq
    obtain ⟨g, hg, -⟩ := Option.map_eq_some_iff.mp h
    rw [List.mem_singleton.mp hq]
    exact not_mem_slash_of_group? part g hg
  | case4 part parts hne ih =>
    simp only [Option.bind_eq_bind, Option.bind_eq_some_iff] at h
    obtain ⟨g, hg, rest, hrest, -⟩ := h
    intro q hq
    rcases List.mem_cons.mp hq with rfl | hq
    · exact not_mem_slash_of_group? _ g hg
    · exact ih rest hrest q hq

theorem not_mem_slash_of_side? (quad : Bool) (cs : List Char) (gs : List (BitVec 16))
    (h : side? quad cs = some gs) : '/' ∉ cs := by
  intro hc
  have hne : cs.isEmpty = false := List.isEmpty_eq_false_iff.mpr (List.ne_nil_of_mem hc)
  rw [side?, hne] at h
  have hjoin : [':'].intercalate (cs.splitOn ':') = cs := List.intercalate_splitOn ':'
  rw [← hjoin] at hc
  rcases mem_intercalate '/' _ _ hc with hcolon | ⟨part, hpart, hmem⟩
  · exact absurd (List.mem_singleton.mp hcolon) (by decide)
  · exact not_mem_slash_of_groupList? quad _ gs h part hpart hmem

/-- A gap stands between the two sides that are cut off it. -/
theorem cutAtGap?_eq_some (cs before after : List Char) (h : cutAtGap? cs = some (before, after)) :
    cs = before ++ ':' :: ':' :: after := by
  fun_induction cutAtGap? cs generalizing before with
  | case1 rest =>
    obtain ⟨rfl, rfl⟩ := Prod.mk.inj (Option.some.inj h)
    rfl
  | case2 c rest hne ih =>
    obtain ⟨⟨front, back⟩, hcut, heq⟩ := Option.map_eq_some_iff.mp h
    obtain ⟨rfl, rfl⟩ := Prod.mk.inj heq
    rw [ih front hcut]
    rfl
  | case3 => cases h

theorem not_mem_slash_of_readV6? (cs : List Char) (a : BitVec 128) (h : readV6? cs = some a) :
    '/' ∉ cs := by
  unfold readV6? at h
  split at h
  case h_1 =>
    simp only [Option.bind_eq_bind, Option.bind_eq_some_iff] at h
    obtain ⟨gs, hgs, -⟩ := h
    exact not_mem_slash_of_side? true cs gs hgs
  case h_2 before after hcut =>
    simp only [Option.bind_eq_bind, Option.bind_eq_some_iff] at h
    obtain ⟨front, hfront, back, hback, -⟩ := h
    rw [cutAtGap?_eq_some cs before after hcut]
    intro hc
    rcases List.mem_append.mp hc with hc | hc
    · exact not_mem_slash_of_side? false before front hfront hc
    · have hafter : '/' ∈ after := by simpa using hc
      exact not_mem_slash_of_side? true after back hback hafter

theorem Spelled.not_mem_slash {cs : List Char} {a : Address} (h : Spelled cs a) : '/' ∉ cs := by
  cases a with
  | v4 bits => exact not_mem_slash_of_readV4? cs bits h
  | v6 bits => exact not_mem_slash_of_readV6? cs bits h

end CidrTable.Address
