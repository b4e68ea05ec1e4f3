import CidrTable.Text.Digits

/-! Numbers written in digits read back.

In a base of at most sixteen `ofDigits?` undoes `digits` (`ofDigits?_digits`). What is
written has no leading zero (`head?_digits`) and only digits in it (`mem_digits`), and a
text that reads as a number has only digits in it too (`digit?_of_ofDigits?`). -/
namespace CidrTable.Text

variable {b : Nat}

/-! ### Single digits -/

theorem digit?_digitChar (hb : b ≤ 16) (d : Nat) (hd : d < b) : digit? b d.digitChar = some d := by
  have hvalue : ∀ d, d < 16 →
      (if '0' ≤ d.digitChar ∧ d.digitChar ≤ '9' then d.digitChar.toNat - '0'.toNat
        else if 'a' ≤ d.digitChar ∧ d.digitChar ≤ 'f' then d.digitChar.toNat - 'a'.toNat + 10
        else if 'A' ≤ d.digitChar ∧ d.digitChar ≤ 'F' then d.digitChar.toNat - 'A'.toNat + 10
        else b) = d := by
    intro d hd
    have hcases : d = 0 ∨ d = 1 ∨ d = 2 ∨ d = 3 ∨ d = 4 ∨ d = 5 ∨ d = 6 ∨ d = 7 ∨ d = 8 ∨ d = 9 ∨
        d = 10 ∨ d = 11 ∨ d = 12 ∨ d = 13 ∨ d = 14 ∨ d = 15 := by omega
    rcases hcases with rfl | rfl | rfl | rfl | rfl | rfl | rfl | rfl | rfl | rfl | rfl | rfl | rfl |
      rfl | rfl | rfl <;> rfl
  simp only [digit?, hvalue d (by omega), hd, if_true]

theorem digitChar_ne_mark (d : Nat) :
    d.digitChar ≠ '.' ∧ d.digitChar ≠ ':' ∧ d.digitChar ≠ '/' :=
  ⟨Nat.digitChar_ne '.' (by decide), Nat.digitChar_ne ':' (by decide), Nat.digitChar_ne '/' (by decide)⟩

theorem digit?_mark (b : Nat) : digit? b '.' = none ∧ digit? b ':' = none ∧ digit? b '/' = none := by
  refine ⟨?_, ?_, ?_⟩ <;> exact if_neg (Nat.lt_irrefl b)

/-! ### Runs of digits -/

theorem ofDigits?_singleton (b : Nat) (c : Char) : ofDigits? b [c] = digit? b c := by
  simp [ofDigits?]

theorem ofDigits?_snoc (b : Nat) (cs : List Char) (c : Char) (h : cs ≠ []) :
    ofDigits? b (cs ++ [c]) = (ofDigits? b cs).bind fun n => (digit? b c).map (b * n + ·) := by
  have hcs : cs.isEmpty = false := List.isEmpty_eq_false_iff.mpr h
  have hall : (cs ++ [c]).isEmpty = false := by simp
  simp only [ofDigits?, hcs, hall, Bool.false_eq_true, if_false, List.foldlM_append]
  simp

/-- **A number written in digits reads back.** -/
theorem ofDigits?_digits (h1 : 1 < b) (hb : b ≤ 16) (n : Nat) :
    ofDigits? b (digits b n) = some n := by
  induction n using Nat.base_induction b h1 with
  | single m hm =>
    rw [digits, Nat.toDigits_of_lt_base hm, ofDigits?_singleton]
    exact digit?_digitChar hb m hm
  | digit m k hk hm ih =>
    rw [digits, ← Nat.toDigits_append_toDigits h1 hm hk, Nat.toDigits_of_lt_base hk,
      ofDigits?_snoc b _ _ Nat.toDigits_ne_nil, show ofDigits? b (Nat.toDigits b m) = some m from ih,
      digit?_digitChar hb k hk]
    rfl

theorem mem_digits (h1 : 1 < b) (n : Nat) (c : Char) (h : c ∈ digits b n) :
    ∃ d, d < b ∧ c = d.digitChar := by
  induction n using Nat.base_induction b h1 with
  | single m hm =>
    rw [digits, Nat.toDigits_of_lt_base hm, List.mem_singleton] at h
    exact ⟨m, hm, h⟩
  | digit m k hk hm ih =>
    rw [digits, ← Nat.toDigits_append_toDigits h1 hm hk, Nat.toDigits_of_lt_base hk,
      List.mem_append, List.mem_singleton] at h
    rcases h with h | h
    · exact ih h
    · exact ⟨k, hk, h⟩

theorem not_mem_digits (h1 : 1 < b) (n : Nat) :
    '.' ∉ digits b n ∧ ':' ∉ digits b n ∧ '/' ∉ digits b n := by
  refine ⟨fun h => ?_, fun h => ?_, fun h => ?_⟩ <;> obtain ⟨d, -, hc⟩ := mem_digits h1 n _ h
  · exact (digitChar_ne_mark d).1 hc.symm
  · exact (digitChar_ne_mark d).2.1 hc.symm
  · exact (digitChar_ne_mark d).2.2 hc.symm

theorem head?_digits (h1 : 1 < b) (n : Nat) : (digits b n).head? = some '0' ↔ n = 0 := by
  induction n using Nat.base_induction b h1 with
  | single m hm =>
    rw [digits, Nat.toDigits_of_lt_base hm]
    simp
  | digit m k hk hm ih =>
    have hne : b * m + k ≠ 0 := by
      have := Nat.mul_pos (Nat.lt_trans Nat.zero_lt_one h1) hm
      omega
    have hhead : (Nat.toDigits b m).head?.isSome := by
      simp [Nat.toDigits_ne_nil]
    have hm0 : (Nat.toDigits b m).head? = some '0' ↔ m = 0 := ih
    rw [digits, ← Nat.toDigits_append_toDigits h1 hm hk, List.head?_append,
      Option.or_eq_left_of_isSome hhead, hm0]
    omega

/-- A text that reads as a number has only digits in it. -/
theorem digit?_of_ofDigits? (cs : List Char) (n : Nat) (h : ofDigits? b cs = some n) (c : Char)
    (hc : c ∈ cs) : digit? b c ≠ none := by
  have hne : cs ≠ [] := List.ne_nil_of_mem hc
  rw [ofDigits?, if_neg (by simpa using hne)] at h
  clear hne
  generalize 0 = start at h
  induction cs generalizing start with
  | nil => cases hc
  | cons d ds ih =>
    rw [List.foldlM_cons] at h
    cases hd : digit? b d with
    | none => simp [hd] at h
    | some v =>
      rcases List.mem_cons.mp hc with rfl | hc
      · simp [hd]
      · simp only [hd] at h
        exact ih hc _ h

/-! ### Decimal digits -/

theorem digit?_of_isDigit (c : Char) (h : c.isDigit = true) :
    digit? 10 c = some (c.toNat - '0'.toNat) := by
  obtain ⟨hlow, hhigh⟩ := Char.isDigit_iff_toNat.mp h
  have hrange : '0' ≤ c ∧ c ≤ '9' := ⟨Char.le_def.mpr hlow, Char.le_def.mpr hhigh⟩
  have hlt : c.toNat - '0'.toNat < 10 := by
    have h0 : '0'.toNat = 48 := rfl
    have h9 : '9'.toNat = 57 := rfl
    omega
  simp only [digit?, if_pos hrange, if_pos hlt]

/-- Decimal digits denote the number that their values add up to. -/
theorem ofDigits?_of_isDigit (cs : List Char) (hne : cs ≠ []) (h : ∀ c ∈ cs, c.isDigit = true) :
    ofDigits? 10 cs = some (Nat.ofDigitChars 10 cs 0) := by
  have hfold : ∀ start, cs.foldlM (fun n c => (digit? 10 c).map (10 * n + ·)) start =
      some (Nat.ofDigitChars 10 cs start) := by
    clear hne
    induction cs with
    | nil => exact fun _ => rfl
    | cons c cs ih =>
      intro start
      rw [List.foldlM_cons, digit?_of_isDigit c (h c List.mem_cons_self), Nat.ofDigitChars_cons]
      exact ih (fun d hd => h d (List.mem_cons_of_mem _ hd)) _
  rw [ofDigits?, if_neg (by simpa using hne)]
  exact hfold 0

/-- A number is read into a word that holds it. -/
theorem word?_of_ofDigits? (w : Nat) (cs : List Char) (n : Nat) (h : ofDigits? 10 cs = some n) :
    word? w cs = if (BitVec.ofNat w n).toNat = n then some (BitVec.ofNat w n) else none := by
  rw [word?, h, Option.bind_eq_bind, Option.bind_some]
  by_cases hn : (BitVec.ofNat w n).toNat = n
  · rw [if_pos hn, show (guard ((BitVec.ofNat w n).toNat = n) : Option Unit) = some () from if_pos hn]
    rfl
  · rw [if_neg hn, show (guard ((BitVec.ofNat w n).toNat = n) : Option Unit) = none from if_neg hn]
    rfl

end CidrTable.Text
