import CidrTable.Proofs.Address.DottedQuad
import CidrTable.Proofs.Address.Groups

/-! The text of an IPv6 address reads back.

A written list of groups has one word for each group, none of them empty and none with a
colon in it, so a reader finds the words again (`side?_writeGroups`) and takes no colon
between two of them for a gap (`cutAtGap?_words`). `readV6?_writeV6` puts the three forms
together, and `read?_writeV6` adds that no such text is a dotted quad. -/
namespace CidrTable.Address

/-! ### Groups -/

theorem group?_digits (g : BitVec 16) : group? (Text.digits 16 g.toNat) = some g := by
  have hread : Text.ofDigits? 16 (Text.digits 16 g.toNat) = some g.toNat :=
    Text.ofDigits?_digits (by decide) (by decide) _
  have hlen : (Text.digits 16 g.toNat).length ≤ 4 :=
    (Nat.length_toDigits_le_iff (by decide) (by decide)).mpr (by have := g.isLt; omega)
  rw [group?, hread, Option.bind_eq_bind, Option.bind_some, guard_bind hlen, BitVec.ofNat_toNat,
    BitVec.setWidth_eq]

/-- The words of written groups read as the groups, also where a dotted quad may stand. -/
theorem groupList?_digits (quad : Bool) (gs : List (BitVec 16)) :
    groupList? quad (gs.map fun g => Text.digits 16 g.toNat) = some gs := by
  induction gs with
  | nil => rfl
  | cons g gs ih =>
    cases gs with
    | nil =>
      have hquad : readV4? (Text.digits 16 g.toNat) = none :=
        readV4?_of_no_dot _ (Text.not_mem_digits (by decide) _).1
      cases quad <;> simp [groupList?, group?_digits, hquad]
    | cons next gs =>
      rw [List.map_cons] at ih
      rw [List.map_cons, List.map_cons, groupList?, ih, group?_digits]
      · rfl
      · simp

/-- Every word of written groups is nonempty and has no colon in it. -/
theorem word_of_group (gs : List (BitVec 16)) (w : List Char)
    (h : w ∈ gs.map fun g => Text.digits 16 g.toNat) : w ≠ [] ∧ ':' ∉ w := by
  obtain ⟨g, -, rfl⟩ := List.mem_map.mp h
  exact ⟨Nat.toDigits_ne_nil, (Text.not_mem_digits (by decide) _).2.1⟩

theorem writeGroups_eq_nil (gs : List (BitVec 16)) : writeGroups gs = [] ↔ gs = [] := by
  refine ⟨fun h => ?_, fun h => by rw [h]; rfl⟩
  cases gs with
  | nil => rfl
  | cons g gs =>
    cases gs with
    | nil =>
      rw [writeGroups, List.map_singleton, List.intercalate_singleton] at h
      exact absurd h Nat.toDigits_ne_nil
    | cons next gs =>
      rw [writeGroups, List.map_cons, List.map_cons, List.intercalate_cons_cons] at h
      simp at h

/-- **A written list of groups reads as the list**, on either side of a gap. -/
theorem side?_writeGroups (quad : Bool) (gs : List (BitVec 16)) :
    side? quad (writeGroups gs) = some gs := by
  by_cases h : gs = []
  · rw [h]
    rfl
  · have hne : (writeGroups gs).isEmpty = false :=
      List.isEmpty_eq_false_iff.mpr fun hnil => h ((writeGroups_eq_nil gs).mp hnil)
    have hsplit : (writeGroups gs).splitOn ':' = gs.map fun g => Text.digits 16 g.toNat :=
      List.splitOn_intercalate ':' (fun w hw => (word_of_group gs w hw).2)
        (fun hnil => h (List.map_eq_nil_iff.mp hnil))
    rw [side?, hne, hsplit, groupList?_digits]
    rfl

/-! ### The gap -/

theorem cutAtGap?_word (w rest : List Char) (h : ':' ∉ w) :
    cutAtGap? (w ++ rest) = (cutAtGap? rest).map fun (before, after) => (w ++ before, after) := by
  induction w with
  | nil => exact Option.map_id'.symm
  | cons c w ih =>
    have hc : c ≠ ':' := fun hc => h (hc ▸ List.mem_cons_self)
    have hw : ':' ∉ w := fun hw => h (List.mem_cons_of_mem _ hw)
    rw [List.cons_append, cutAtGap?, ih hw, Option.map_map]
    · rfl
    · intro rest' hrest
      exact absurd hrest hc

/-- A colon without another behind it is no gap. -/
theorem cutAtGap?_colon (cs : List Char) (h : cs.head? ≠ some ':') :
    cutAtGap? (':' :: cs) = (cutAtGap? cs).map fun (before, after) => (':' :: before, after) := by
  rw [cutAtGap?]
  rintro rest - rfl
  exact h rfl

/-- **No gap starts inside words that single colons join.** -/
theorem cutAtGap?_words (ws : List (List Char)) (rest : List Char)
    (h : ∀ w ∈ ws, w ≠ [] ∧ ':' ∉ w) :
    cutAtGap? ([':'].intercalate ws ++ rest) =
      (cutAtGap? rest).map fun (before, after) => ([':'].intercalate ws ++ before, after) := by
  induction ws with
  | nil => exact Option.map_id'.symm
  | cons w ws ih =>
    cases ws with
    | nil =>
      rw [List.intercalate_singleton]
      exact cutAtGap?_word w rest (h w List.mem_cons_self).2
    | cons next ws =>
      have hhead : ([':'].intercalate (next :: ws) ++ rest).head? ≠ some ':' := by
        obtain ⟨hne, hcolon⟩ := h next (List.mem_cons_of_mem _ List.mem_cons_self)
        cases next with
        | nil => exact absurd rfl hne
        | cons c cs =>
          rw [List.intercalate_cons_cons_left, List.cons_append, List.head?_cons]
          rintro ⟨⟩
          exact hcolon List.mem_cons_self
      rw [List.intercalate_cons_cons, List.append_assoc, List.append_assoc,
        cutAtGap?_word w _ (h w List.mem_cons_self).2, List.singleton_append,
        cutAtGap?_colon _ hhead, ih fun w hw => h w (List.mem_cons_of_mem _ hw),
        Option.map_map, Option.map_map]
      simp only [Function.comp_def, List.append_assoc, List.cons_append, List.nil_append]

theorem cutAtGap?_writeGroups (gs : List (BitVec 16)) : cutAtGap? (writeGroups gs) = none := by
  have h := cutAtGap?_words _ [] (word_of_group gs)
  rwa [List.append_nil] at h

theorem cutAtGap?_gap (gs : List (BitVec 16)) (after : List Char) :
    cutAtGap? (writeGroups gs ++ ([':', ':'] ++ after)) = some (writeGroups gs, after) := by
  rw [writeGroups, cutAtGap?_words _ _ (word_of_group gs)]
  show some ([':'].intercalate _ ++ [], after) = _
  rw [List.append_nil]

/-! ### IPv6 -/

/-- What a text with a gap denotes: its sides, and zero groups for the gap. -/
theorem readV6?_of_cut (cs before after : List Char) (front back : List (BitVec 16))
    (hcut : cutAtGap? cs = some (before, after)) (hfront : side? false before = some front)
    (hback : side? true after = some back) (hle : front.length + back.length ≤ 7) :
    readV6? cs =
      some (ofGroups (front ++ List.replicate (8 - (front.length + back.length)) 0 ++ back)) := by
  rw [readV6?, hcut]
  dsimp only
  rw [hfront, hback]
  exact guard_bind hle _

theorem readV6?_mapped (x : BitVec 128) (h : x.extractLsb' 32 96 = mappedFront) :
    readV6? ("::ffff:".toList ++ writeV4 (x.extractLsb' 0 32)) = some x := by
  have hjoin : "ffff:".toList ++ writeV4 (x.extractLsb' 0 32) =
      [':'].intercalate ["ffff".toList, writeV4 (x.extractLsb' 0 32)] := by
    rw [List.intercalate_cons_cons, List.intercalate_singleton]
    rfl
  have hcolon : ∀ w ∈ ["ffff".toList, writeV4 (x.extractLsb' 0 32)], ':' ∉ w := by
    intro w hw
    rcases List.mem_cons.mp hw with rfl | hw
    · decide
    · rw [List.mem_singleton.mp hw]
      exact (not_mem_writeV4 _).1
  have hback : side? true ("ffff:".toList ++ writeV4 (x.extractLsb' 0 32)) =
      some (0xffff :: quadGroups (x.extractLsb' 0 32)) := by
    have hgroup : group? "ffff".toList = some 0xffff := by decide
    rw [side?, hjoin, List.splitOn_intercalate ':' hcolon (List.cons_ne_nil _ _), groupList?, hgroup,
      groupList?, readV4?_writeV4]
    · rfl
    · exact fun hnil => nomatch hnil
  have hall : [] ++ List.replicate 5 0 ++ 0xffff :: quadGroups (x.extractLsb' 0 32) = groups x := by
    rw [groups_of_mapped x h, List.nil_append, List.append_cons]
  rw [readV6?_of_cut _ [] _ [] _ rfl rfl hback (Nat.le_add_left 3 4)]
  exact congrArg some ((congrArg ofGroups hall).trans (ofGroups_groups x))

/-- Groups that a gap stands in for denote their word. -/
theorem readV6?_gap (x : BitVec 128) (start len : Nat) (hlen : 1 ≤ len)
    (h : (groups x).take start ++ List.replicate len 0 ++ (groups x).drop (start + len) = groups x) :
    readV6? (writeGroups ((groups x).take start) ++ [':', ':'] ++
      writeGroups ((groups x).drop (start + len))) = some x := by
  have hcount : ((groups x).take start).length + len + ((groups x).drop (start + len)).length = 8 := by
    have h8 := congrArg List.length h
    rwa [length_groups, List.length_append, List.length_append, List.length_replicate] at h8
  rw [List.append_assoc, readV6?_of_cut _ _ _ _ _ (cutAtGap?_gap _ _) (side?_writeGroups false _)
    (side?_writeGroups true _) (by omega)]
  have hgap : 8 - (((groups x).take start).length + ((groups x).drop (start + len)).length) = len := by
    omega
  rw [hgap, h, ofGroups_groups]

/-- The three forms of a written address. -/
theorem writeV6_forms (x : BitVec 128) :
    (x.extractLsb' 32 96 = mappedFront ∧
      writeV6 x = "::ffff:".toList ++ writeV4 (x.extractLsb' 0 32)) ∨
    (∃ start len, 2 ≤ len ∧
      (groups x).take start ++ List.replicate len 0 ++ (groups x).drop (start + len) = groups x ∧
      writeV6 x = writeGroups ((groups x).take start) ++ [':', ':'] ++
        writeGroups ((groups x).drop (start + len))) ∨
    writeV6 x = writeGroups (groups x) := by
  unfold writeV6
  by_cases hmapped : x.extractLsb' 32 96 = mappedFront
  · rw [if_pos hmapped]
    exact .inl ⟨hmapped, rfl⟩
  · rw [if_neg hmapped]
    right
    dsimp only
    by_cases hlen : 2 ≤ (longestGap (groups x)).2
    · rw [if_pos hlen]
      exact .inl ⟨_, _, hlen, longestGap_cut (groups x), rfl⟩
    · rw [if_neg hlen]
      exact .inr rfl

/-- **The text of an address denotes it.** -/
theorem readV6?_writeV6 (x : BitVec 128) : readV6? (writeV6 x) = some x := by
  rcases writeV6_forms x with ⟨hmapped, h⟩ | ⟨start, len, hlen, hcut, h⟩ | h
  · rw [h]
    exact readV6?_mapped x hmapped
  · rw [h]
    exact readV6?_gap x start len (by omega) hcut
  · have hlen : ((groups x).length == 8) = true := by rw [length_groups]; rfl
    rw [h, readV6?, cutAtGap?_writeGroups]
    dsimp only
    rw [side?_writeGroups, Option.bind_eq_bind, Option.bind_some, guard_bind hlen, ofGroups_groups]

/-! ### Marks -/

theorem not_mem_writeGroups (gs : List (BitVec 16)) : '/' ∉ writeGroups gs := by
  intro hc
  rcases mem_intercalate _ _ _ hc with h | ⟨part, hpart, h⟩
  · exact absurd h (by decide)
  · obtain ⟨g, -, rfl⟩ := List.mem_map.mp hpart
    exact (Text.not_mem_digits (by decide) _).2.2 h

theorem colon_mem_writeGroups (gs : List (BitVec 16)) (h : 2 ≤ gs.length) : ':' ∈ writeGroups gs := by
  match gs, h with
  | g :: next :: gs, _ =>
    rw [writeGroups, List.map_cons, List.map_cons, List.intercalate_cons_cons]
    simp

/-- The text of an IPv6 address has a colon in it and no slash. -/
theorem marks_writeV6 (x : BitVec 128) : ':' ∈ writeV6 x ∧ '/' ∉ writeV6 x := by
  rcases writeV6_forms x with ⟨-, h⟩ | ⟨start, len, -, -, h⟩ | h
  · rw [h]
    refine ⟨List.mem_append_left _ (by decide), fun hc => ?_⟩
    rcases List.mem_append.mp hc with hc | hc
    · exact absurd hc (by decide)
    · exact (not_mem_writeV4 _).2 hc
  · rw [h]
    refine ⟨by simp, fun hc => ?_⟩
    rcases List.mem_append.mp hc with hc | hc
    · rcases List.mem_append.mp hc with hc | hc
      · exact not_mem_writeGroups _ hc
      · exact absurd hc (by decide)
    · exact not_mem_writeGroups _ hc
  · rw [h]
    exact ⟨colon_mem_writeGroups _ (by rw [length_groups]; omega), not_mem_writeGroups _⟩

/-- **The text of an IPv6 address denotes it and nothing in the other family.** -/
theorem read?_writeV6 (x : BitVec 128) : read? (writeV6 x) = some (.v6 x) := by
  rw [read?, readV4?_of_colon _ (marks_writeV6 x).1, readV6?_writeV6]
  rfl

theorem read?_mapped (b : BitVec 32) :
    read? ("::ffff:".toList ++ writeV4 b) = some (.v6 (mapped b)) := by
  have hfront : (mapped b).extractLsb' 32 96 = mappedFront := BitVec.extractLsb'_append_eq_left
  have hback : (mapped b).extractLsb' 0 32 = b := BitVec.extractLsb'_append_eq_right
  have hwrite : writeV6 (mapped b) = "::ffff:".toList ++ writeV4 b := by
    rw [writeV6, if_pos hfront, hback]
  rw [← hwrite, read?_writeV6]

end CidrTable.Address
