import CidrTable.Located
import CidrTable.Proofs.Subnet.Grammar

/-! Places at the end of messages.

A message ends at a place if behind its text stand the words for a line and for a column,
each with a number in decimal digits that 64 bits hold (`EndsAt`). Taking a place off the end
finds exactly that (`split?_eq_some_iff`): a message is taken for the text and the place it
ends at, and one that ends at none is kept whole (`ofString_of_endsAt`,
`ofString_of_plain`). A reader in a text of its own reports a message at the place it ends at,
and at the reader's own place where that is none or in line zero (`reports_orBehind`). -/
namespace CidrTable.Located

open Subnet (IsNumber)

/-- Behind the text stands the place, both its numbers in decimal digits. -/
structure EndsAt (s : String) (m : Located) : Prop where
  spelled : ∃ line column : List Char, IsNumber line m.line ∧ IsNumber column m.column ∧
    s.toList = m.text.toList ++ " at line ".toList ++ line ++ " column ".toList ++ column
  line_le : m.line ≤ limit
  column_le : m.column ≤ limit

theorem isNumber_toString (n : Nat) : IsNumber (toString n).toList n := by
  have hdigits : (toString n).toList = Nat.toDigits 10 n := Nat.toList_repr
  rw [hdigits]
  exact ⟨Nat.toDigits_ne_nil, fun c hc => Nat.isDigit_of_mem_toDigits (by decide) (by decide) hc,
    Nat.ofDigitChars_toDigits (by decide) (by decide)⟩

theorem endsAt_place (text : String) (line column : Nat) (hline : line ≤ limit)
    (hcolumn : column ≤ limit) :
    EndsAt (text ++ " at line " ++ toString line ++ " column " ++ toString column)
      ⟨text, line, column⟩ := by
  refine ⟨⟨_, _, isNumber_toString line, isNumber_toString column, ?_⟩, hline, hcolumn⟩
  simp only [String.toList_append]

theorem EndsAt.append {s : String} {m : Located} (front : String) (h : EndsAt s m) :
    EndsAt (front ++ s) { m with text := front ++ m.text } := by
  obtain ⟨⟨line, column, hline, hcolumn, hs⟩, hlineLe, hcolumnLe⟩ := h
  refine ⟨⟨line, column, hline, hcolumn, ?_⟩, hlineLe, hcolumnLe⟩
  rw [String.toList_append, String.toList_append, hs]
  simp only [List.append_assoc]

theorem EndsAt.text_ne {s : String} {m : Located} (h : EndsAt s m) : m.text ≠ s := by
  intro htext
  obtain ⟨⟨line, column, -, -, hs⟩, -, -⟩ := h
  have hlength := congrArg List.length hs
  rw [htext] at hlength
  simp only [List.length_append] at hlength
  have hword : " at line ".toList.length = 9 := rfl
  omega

/-! ### Taking numbers off the end -/

theorem isNumber_reverse_takeWhile (cs : List Char) (n : Nat)
    (h : Text.ofDigits? 10 (cs.takeWhile Char.isDigit).reverse = some n) :
    IsNumber (cs.takeWhile Char.isDigit).reverse n := by
  have hne : (cs.takeWhile Char.isDigit).reverse ≠ [] := by
    intro hnil
    rw [hnil] at h
    cases h
  have hdigits : ∀ c ∈ (cs.takeWhile Char.isDigit).reverse, c.isDigit = true := fun c hc =>
    List.mem_takeWhile_imp (List.mem_reverse.mp hc)
  rw [Text.ofDigits?_of_isDigit _ hne hdigits] at h
  exact ⟨hne, hdigits, Option.some.inj h⟩

/-- **What is taken off the end is a number and the word in front of it.** -/
theorem takeNumber?_eq_some_iff (word : String) (c : Char) (letters : List Char)
    (hword : word.toList.reverse = c :: letters) (hc : c.isDigit = false) (reversed : List Char)
    (n : Nat) (rest : List Char) :
    takeNumber? word reversed = some (n, rest) ↔
      ∃ number, IsNumber number n ∧ n ≤ limit ∧
        reversed = number.reverse ++ (word.toList.reverse ++ rest) := by
  constructor
  · intro h
    simp only [takeNumber?, Option.bind_eq_bind, Option.bind_eq_some_iff, Option.guard_eq_some'] at h
    obtain ⟨m, hm, -, hguard, hrest⟩ := h
    obtain ⟨rfl, rfl⟩ := Prod.mk.inj (Option.some.inj hrest)
    obtain ⟨hle, hletters⟩ := Bool.and_eq_true_iff.mp hguard
    obtain ⟨tail, htail⟩ := List.isPrefixOf_iff_prefix.mp hletters
    refine ⟨_, isNumber_reverse_takeWhile reversed m hm, of_decide_eq_true hle, ?_⟩
    rw [List.reverse_reverse, ← htail, List.drop_left, htail, List.takeWhile_append_dropWhile]
  · intro h
    obtain ⟨number, hnumber, hle, rfl⟩ := h
    have hdigits : ∀ d ∈ number.reverse, d.isDigit = true := fun d hd =>
      hnumber.digits d (List.mem_reverse.mp hd)
    have htake : (number.reverse ++ (word.toList.reverse ++ rest)).takeWhile Char.isDigit =
        number.reverse := by
      rw [List.takeWhile_append_of_pos hdigits, hword, List.cons_append, List.takeWhile_cons, hc]
      exact List.append_nil _
    have hdrop : (number.reverse ++ (word.toList.reverse ++ rest)).dropWhile Char.isDigit =
        word.toList.reverse ++ rest := by
      rw [List.dropWhile_append_of_pos hdigits, hword, List.cons_append, List.dropWhile_cons, hc]
      rfl
    have hvalue : Text.ofDigits? 10 number = some n := by
      rw [Text.ofDigits?_of_isDigit number hnumber.nonempty hnumber.digits, hnumber.value]
    have hletters : word.toList.reverse.isPrefixOf (word.toList.reverse ++ rest) = true :=
      List.isPrefixOf_iff_prefix.mpr (List.prefix_append _ _)
    simp only [takeNumber?, htake, hdrop, List.reverse_reverse, hvalue, Option.bind_eq_bind,
      Option.bind_some, Option.bind_eq_some_iff, Option.guard_eq_some', List.drop_left]
    exact ⟨(), Bool.and_eq_true_iff.mpr ⟨decide_eq_true hle, hletters⟩, trivial⟩

/-! ### Places -/

/-- **The place found at the end of a message is the one it ends at.** -/
theorem split?_eq_some_iff (s : String) (m : Located) : split? s = some m ↔ EndsAt s m := by
  have hcolumn := takeNumber?_eq_some_iff " column " ' ' "nmuloc ".toList rfl rfl
  have hline := takeNumber?_eq_some_iff " at line " ' ' "enil ta ".toList rfl rfl
  constructor
  · intro h
    simp only [split?, Option.bind_eq_bind, Option.bind_eq_some_iff] at h
    obtain ⟨⟨column, front⟩, hc, ⟨line, text⟩, hl, hm⟩ := h
    obtain ⟨digits, hdigits, hcle, hfront⟩ := (hcolumn _ _ _).mp hc
    obtain ⟨digits', hdigits', hlle, rfl⟩ := (hline _ _ _).mp hl
    obtain rfl := Option.some.inj hm
    refine ⟨⟨digits', digits, hdigits', hdigits, ?_⟩, hlle, hcle⟩
    rw [← List.reverse_inj, hfront]
    simp
  · intro h
    obtain ⟨⟨digits', digits, hdigits', hdigits, hs⟩, hlle, hcle⟩ := h
    have hl : takeNumber? " at line " (digits'.reverse ++
        (" at line ".toList.reverse ++ m.text.toList.reverse)) = some (m.line, m.text.toList.reverse) :=
      (hline _ _ _).mpr ⟨digits', hdigits', hlle, rfl⟩
    have hc : takeNumber? " column " s.toList.reverse = some (m.column, digits'.reverse ++
        (" at line ".toList.reverse ++ m.text.toList.reverse)) :=
      (hcolumn _ _ _).mpr ⟨digits, hdigits, hcle, by rw [hs]; simp⟩
    simp only [split?, hc, hl, Option.bind_eq_bind, Option.bind_some, List.reverse_reverse,
      String.ofList_toList]

theorem ofString_of_endsAt (s : String) (m : Located) (h : EndsAt s m) : ofString s = m := by
  rw [ofString, (split?_eq_some_iff s m).mpr h, Option.getD_some]

theorem ofString_of_plain (s : String) (h : ∀ m, ¬ EndsAt s m) : ofString s = ⟨s, 0, 0⟩ := by
  have hnone : split? s = none :=
    Option.eq_none_iff_forall_ne_some.mpr fun m hm => h m ((split?_eq_some_iff s m).mp hm)
  rw [ofString, hnone, Option.getD_none]

/-- A message is shown again as it was, if the place it ends at is written as it stood there:
in a line that is not zero, and in numbers without leading zeros. -/
theorem write_ofString (s : String) (h : ∀ m, EndsAt s m → m.write = s) :
    (ofString s).write = s := by
  by_cases hplace : ∃ m, EndsAt s m
  case pos =>
    obtain ⟨m, hm⟩ := hplace
    rw [ofString_of_endsAt s m hm]
    exact h m hm
  case neg =>
    rw [ofString_of_plain s (not_exists.mp hplace)]
    rfl

/-- What is left of a message without the place that it ends at. -/
structure Unplaced (s text : String) : Prop where
  plain : (∀ m, ¬ EndsAt s m) → text = s
  placed : ∀ m, EndsAt s m → text = m.text

theorem unplaced_ofString (s : String) : Unplaced s (ofString s).text := by
  refine ⟨fun h => ?_, fun m hm => ?_⟩
  · rw [ofString_of_plain s h]
  · rw [ofString_of_endsAt s m hm]

theorem EndsAt.text_ofString_ne {s : String} {m : Located} (h : EndsAt s m) :
    (ofString s).text ≠ s := by
  rw [ofString_of_endsAt s m h]
  exact h.text_ne

/-- A place in line zero is lost. -/
theorem EndsAt.write_ofString_ne {s : String} {m : Located} (h : EndsAt s m) (hzero : m.line = 0) :
    (ofString s).write ≠ s := by
  rw [ofString_of_endsAt s m h, write, if_pos hzero]
  exact h.text_ne

/-- A message whose last character is no digit ends at no place. -/
theorem not_endsAt_of_getLast? (s : String) (c : Char) (hlast : s.toList.getLast? = some c)
    (hc : c.isDigit = false) (m : Located) : ¬ EndsAt s m := by
  intro h
  obtain ⟨⟨line, column, -, hcolumn, hs⟩, -, -⟩ := h
  have hend : s.toList.getLast? = column.getLast? := by
    rw [hs, List.getLast?_append]
    exact Option.or_eq_left_of_isSome (List.getLast?_isSome.mpr hcolumn.nonempty)
  have hdigit := hcolumn.digits c (List.mem_of_getLast? (hend ▸ hlast))
  rw [hc] at hdigit
  cases hdigit

/-! ### Readers in a text -/

/-- What a reader that has read a front of a text reports of a message. -/
structure Reports (front : List Char) (s : String) (m : Located) : Prop where
  text : Unplaced s m.text
  /-- A place at the end of the message is the error's own, unless it is in line zero. -/
  own : ∀ p, EndsAt s p → p.line ≠ 0 → m = p
  /-- So the message is shown as it was, if its numbers have no leading zeros. -/
  write : ∀ p, EndsAt s p → p.line ≠ 0 → p.write = s → m.write = s
  /-- Else the error is placed where the reader stands. -/
  behind : (∀ p, EndsAt s p → p.line = 0) → m.line = lineBehind front ∧ m.column = columnBehind front

theorem orBehind_of_line_ne_zero (front : List Char) {m : Located} (h : m.line ≠ 0) :
    m.orBehind front = m := if_neg h

theorem orBehind_of_line_eq_zero (front : List Char) {m : Located} (h : m.line = 0) :
    m.orBehind front = ⟨m.text, lineBehind front, columnBehind front⟩ := if_pos h

theorem text_orBehind (front : List Char) (m : Located) : (m.orBehind front).text = m.text := by
  unfold orBehind
  split <;> rfl

/-- **A reader in a text reports a message at the place it ends at, or else at its own.** -/
theorem reports_orBehind (front : List Char) (s : String) :
    Reports front s ((ofString s).orBehind front) := by
  have hown : ∀ p, EndsAt s p → p.line ≠ 0 → (ofString s).orBehind front = p := by
    intro p hp hline
    rw [ofString_of_endsAt s p hp, orBehind_of_line_ne_zero front hline]
  constructor
  case text =>
    rw [text_orBehind]
    exact unplaced_ofString s
  case own => exact hown
  case write =>
    intro p hp hline hwrite
    rw [hown p hp hline, hwrite]
  case behind =>
    intro hzero
    have hline : (ofString s).line = 0 := by
      by_cases hplace : ∃ p, EndsAt s p
      case pos =>
        obtain ⟨p, hp⟩ := hplace
        rw [ofString_of_endsAt s p hp]
        exact hzero p hp
      case neg => rw [ofString_of_plain s (not_exists.mp hplace)]
    rw [orBehind_of_line_eq_zero front hline]
    exact ⟨rfl, rfl⟩

end CidrTable.Located
