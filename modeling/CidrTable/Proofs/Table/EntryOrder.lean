import CidrTable.Proofs.Table.Verdict

/-! The order of entries shows in refused keys only.

Where no two keys denote one prefix, every entry is the last under its prefix, in any order
(`lastUnder_iff_mem`); and the last entries of a list are those that no later one overrides
(`lastWrite_lastEntries`). Decoding comes to what the last documents under the prefixes say, so
neither a new order nor the loss of the overridden entries changes the table or the value that
fails. A refused key does show the order: each list reports its own first one
(`order_shows_in_refused_keys_only`). -/
namespace CidrTable.Table

variable {V : Type}

/-- No two keys denote the same prefix. -/
def KeysDiffer (entries : List (RawKey × Json)) : Prop :=
  (entries.filterMap fun e => e.1.prefix?).Nodup

instance (entries : List (RawKey × Json)) : Decidable (KeysDiffer entries) :=
  inferInstanceAs (Decidable (List.Nodup _))

/-- Whether a later key denotes the same prefix. -/
def isOverridden (key : RawKey) (later : List (RawKey × Json)) : Bool :=
  key.prefix?.isSome && later.any fun e => e.1.prefix? == key.prefix?

/-- The entries that no later one overrides, keys that denote no prefix among them. -/
def lastEntries : List (RawKey × Json) → List (RawKey × Json)
  | [] => []
  | e :: rest => if isOverridden e.1 rest then lastEntries rest else e :: lastEntries rest

/-- The failure is that of the first key that denotes no prefix, by its place. -/
def RefusesFirst (entries : List (RawKey × Json)) (e : DecodeError) : Prop :=
  ∃ before key raw after, entries = before ++ (key, raw) :: after ∧
    (∀ b ∈ before, b.1.prefix? ≠ none) ∧ Refused before.length key e

/-- Two lists of entries come to the same, the key they refuse apart. -/
structure SameButForKeys (A B : Arrangement V) (S : Schema V) (xs ys : List (RawKey × Json)) :
    Prop where
  table : ∀ t, (ofEntriesIn A S xs).result = .ok t ↔ (ofEntriesIn B S ys).result = .ok t
  value : ∀ name cause, (ofEntriesIn A S xs).result = .error (.value name cause) ↔
    (ofEntriesIn B S ys).result = .error (.value name cause)
  /-- Where every key is good and a last value fails, both report one and the same value. -/
  failed : (∀ b ∈ xs, b.1.prefix? ≠ none) → ∀ p raw e, LastUnder xs p raw →
    (S.decode raw).result = .error e →
    ∃ cause, (ofEntriesIn A S xs).result = .error (.value S.name cause) ∧
      (ofEntriesIn B S ys).result = .error (.value S.name cause)
  /-- Where a key is not good, each reports the first of its own. -/
  refused : (∃ b ∈ xs, b.1.prefix? = none) →
    (∃ e, RefusesFirst xs e ∧ (ofEntriesIn A S xs).result = .error e) ∧
      ∃ e, RefusesFirst ys e ∧ (ofEntriesIn B S ys).result = .error e

/-! ### Last documents -/

/-- Where keys differ, every document is the last under its prefix. -/
theorem lastUnder_iff_mem (entries : List (RawKey × Json)) (h : KeysDiffer entries) (p : Prefix)
    (raw : Json) :
    LastUnder entries p raw ↔ ∃ key, (key, raw) ∈ entries ∧ key.prefix? = some p := by
  constructor
  · intro hlast
    obtain ⟨before, key, after, rfl, hkey, -⟩ := hlast
    exact ⟨key, List.mem_append_right _ List.mem_cons_self, hkey⟩
  · intro hmem
    obtain ⟨key, hmem, hkey⟩ := hmem
    obtain ⟨before, after, rfl⟩ := List.append_of_mem hmem
    refine ⟨before, key, after, rfl, hkey, fun e he heq => ?_⟩
    simp only [KeysDiffer, List.filterMap_append, List.filterMap_cons, hkey] at h
    have hafter := (List.nodup_cons.mp (List.nodup_append.mp h).2.1).1
    exact hafter (List.mem_filterMap.mpr ⟨e, he, heq⟩)

theorem KeysDiffer.perm {xs ys : List (RawKey × Json)} (h : KeysDiffer xs) (hperm : xs.Perm ys) :
    KeysDiffer ys := (hperm.filterMap _).nodup_iff.mp h

/-- **A new order changes no prefix's last document**, where keys differ. -/
theorem lastUnder_perm {xs ys : List (RawKey × Json)} (h : KeysDiffer xs) (hperm : xs.Perm ys)
    (p : Prefix) (raw : Json) : LastUnder xs p raw ↔ LastUnder ys p raw := by
  rw [lastUnder_iff_mem xs h, lastUnder_iff_mem ys (h.perm hperm)]
  exact exists_congr fun key => and_congr_left' hperm.mem_iff

/-- **The loss of overridden entries changes no prefix's last document.** -/
theorem lastWrite_lastEntries (entries : List (RawKey × Json)) (p : Prefix) :
    lastWrite (denotations (lastEntries entries)) (some p) =
      lastWrite (denotations entries) (some p) := by
  induction entries with
  | nil => rfl
  | cons e rest ih =>
    have hcons : ∀ later, lastWrite (denotations (e :: later)) (some p) =
        (lastWrite (denotations later) (some p)).or
          (if some p = e.1.prefix? then some e.2 else none) :=
      fun later => lastWrite_cons (denotations later) e.1.prefix? e.2 (some p)
    rw [lastEntries, hcons rest]
    split
    case isFalse => rw [hcons, ih]
    case isTrue hover =>
      rw [ih]
      split
      case isFalse => rw [Option.or_none]
      case isTrue hp =>
        -- A later entry has the prefix, so this one does not count.
        obtain ⟨f, hf, hfp⟩ := List.any_eq_true.mp (Bool.and_eq_true_iff.mp hover).2
        have hlater : lastWrite (denotations rest) (some p) ≠ none :=
          (exists_key_iff rest p).mp ⟨f, hf, (beq_iff_eq.mp hfp).trans hp.symm⟩
        obtain ⟨raw, hraw⟩ := Option.ne_none_iff_exists'.mp hlater
        rw [hraw]
        rfl

theorem mem_lastEntries_of_refused {entries : List (RawKey × Json)} {b : RawKey × Json}
    (hb : b ∈ entries) (h : b.1.prefix? = none) : b ∈ lastEntries entries := by
  induction entries with
  | nil => cases hb
  | cons e rest ih =>
    rw [lastEntries]
    rcases List.mem_cons.mp hb with rfl | hb
    · have hover : isOverridden b.1 rest = false := by simp [isOverridden, h]
      rw [hover]
      exact List.mem_cons_self
    · split
      case isTrue => exact ih hb
      case isFalse => exact List.mem_cons_of_mem _ (ih hb)

theorem lastEntries_sublist (entries : List (RawKey × Json)) :
    (lastEntries entries).Sublist entries := by
  induction entries with
  | nil => exact .slnil
  | cons e rest ih =>
    rw [lastEntries]
    split
    case isTrue => exact ih.cons e
    case isFalse => exact ih.cons_cons e

theorem forall_good_lastEntries_iff (entries : List (RawKey × Json)) :
    (∀ b ∈ lastEntries entries, b.1.prefix? ≠ none) ↔ ∀ b ∈ entries, b.1.prefix? ≠ none :=
  ⟨fun h b hb hnone => h b (mem_lastEntries_of_refused hb hnone) hnone,
    fun h b hb => h b ((lastEntries_sublist entries).subset hb)⟩

/-! ### Outcomes -/

theorem exists_refusesFirst (A : Arrangement V) (S : Schema V) (entries : List (RawKey × Json))
    (h : ¬ ∀ b ∈ entries, b.1.prefix? ≠ none) :
    ∃ e, RefusesFirst entries e ∧ (ofEntriesIn A S entries).result = .error e := by
  rw [result_ofEntriesIn]
  obtain ⟨r, hr⟩ := exists_verdict S entries
  cases hr with
  | refused before key raw after e hsplit hbefore hrefused =>
    exact ⟨e, ⟨before, key, raw, after, hsplit, hbefore, hrefused⟩,
      Verdict.result_eq (.refused before key raw after e hsplit hbefore hrefused)⟩
  | failed _ _ _ hgood => exact absurd hgood h
  | table _ hgood => exact absurd hgood h

theorem RefusesFirst.ne_value {entries : List (RawKey × Json)} {e : DecodeError}
    (h : RefusesFirst entries e) (name : String) (cause : Located) : e ≠ .value name cause := by
  obtain ⟨_, _, _, _, _, _, hrefused⟩ := h
  rintro rfl
  cases hrefused

/-- Where every key is good and a last value fails, the outcome is a failing value. -/
theorem exists_value_of_failed (S : Schema V) (entries : List (RawKey × Json))
    (hkeys : ∀ b ∈ entries, b.1.prefix? ≠ none) (p : Prefix) (raw : Json) (e : ValueError)
    (hlast : LastUnder entries p raw) (hraw : (S.decode raw).result = .error e) :
    ∃ cause, (ofEntries S entries).result = .error (.value S.name cause) := by
  rcases decodes_or_failed S entries hkeys with hvalues | ⟨q, raw', e', hq, hfail, hleast⟩
  · obtain ⟨v, hv⟩ := hvalues p raw hlast
    cases hraw.symm.trans hv
  · exact ⟨e'.report, Verdict.result_eq (.failed q raw' e' hkeys hq hfail hleast)⟩

/-- Lists with the same last documents come to the same, the key they refuse apart. -/
theorem sameButForKeys_of_lastUnder (A B : Arrangement V) (S : Schema V)
    {xs ys : List (RawKey × Json)}
    (hgood : (∀ b ∈ ys, b.1.prefix? ≠ none) ↔ ∀ b ∈ xs, b.1.prefix? ≠ none)
    (hlast : ∀ p raw, LastUnder xs p raw ↔ LastUnder ys p raw) : SameButForKeys A B S xs ys := by
  by_cases hkeys : ∀ b ∈ xs, b.1.prefix? ≠ none
  case pos =>
    have hsame : (ofEntriesIn A S xs).result = (ofEntriesIn B S ys).result := by
      obtain ⟨r, hr⟩ := exists_verdict S xs
      rw [result_ofEntriesIn, result_ofEntriesIn, hr.result_eq,
        (hr.congr hkeys (hgood.mpr hkeys) hlast).result_eq]
    constructor
    case table => exact fun t => by rw [hsame]
    case value => exact fun name cause => by rw [hsame]
    case failed =>
      intro _ p raw e hp hraw
      rw [← hsame, result_ofEntriesIn]
      obtain ⟨cause, hcause⟩ := exists_value_of_failed S xs hkeys p raw e hp hraw
      exact ⟨cause, hcause, hcause⟩
    case refused =>
      intro hbad
      obtain ⟨b, hb, hnone⟩ := hbad
      exact absurd hnone (hkeys b hb)
  case neg =>
    obtain ⟨e, he, hxs⟩ := exists_refusesFirst A S xs hkeys
    obtain ⟨f, hf, hys⟩ := exists_refusesFirst B S ys fun h => hkeys (hgood.mp h)
    constructor
    case table =>
      intro t
      rw [hxs, hys]
      constructor <;> intro h <;> cases h
    case value =>
      intro name cause
      rw [hxs, hys, Except.error.injEq, Except.error.injEq]
      exact iff_of_false (he.ne_value name cause) (hf.ne_value name cause)
    case failed => exact fun h => absurd h hkeys
    case refused => exact fun _ => ⟨⟨e, he, hxs⟩, f, hf, hys⟩

/-- **The order of entries shows in refused keys only**: entries under distinct prefixes come to
the same in every order, and any entries come to the same without those that a later one
overrides, whatever the two orders in which the decoded values are inserted. -/
theorem order_shows_in_refused_keys_only (A B : Arrangement V) (S : Schema V)
    (xs ys entries : List (RawKey × Json)) (hdiffer : KeysDiffer xs) (hperm : xs.Perm ys) :
    SameButForKeys A B S xs ys ∧ SameButForKeys A B S entries (lastEntries entries) := by
  constructor
  · refine sameButForKeys_of_lastUnder A B S ?_ (lastUnder_perm hdiffer hperm)
    exact forall_congr' fun b => imp_congr_left hperm.mem_iff.symm
  · refine sameButForKeys_of_lastUnder A B S (forall_good_lastEntries_iff entries) fun p raw => ?_
    rw [lastUnder_iff, lastUnder_iff, lastWrite_lastEntries]

/-- A bad key that is not first in either order, and a key written twice in two notations. -/
theorem reversed_entries_come_to_the_same :
    KeysDiffer
        [(.text "10.0.0.0/8", .text "inner"), (.other "int", .null), (.text "::/0", .text "any")] ∧
      SameButForKeys .byKey ⟨List.reverse, List.reverse_perm⟩ (Schema.text "text")
        [(.text "10.0.0.0/8", .text "inner"), (.other "int", .null), (.text "::/0", .text "any")]
        [(.text "::/0", .text "any"), (.other "int", .null), (.text "10.0.0.0/8", .text "inner")] ∧
      SameButForKeys .byKey ⟨List.reverse, List.reverse_perm⟩ (Schema.text "text")
        [(.text "10.0.0.0/8", .null), (.text "::/0", .text "any"),
          (.text "::ffff:10.0.0.0/104", .text "last")]
        [(.text "::/0", .text "any"), (.text "::ffff:10.0.0.0/104", .text "last")] := by
  have hdiffer : KeysDiffer
      [(.text "10.0.0.0/8", .text "inner"), (.other "int", .null), (.text "::/0", .text "any")] := by
    decide +kernel
  exact ⟨hdiffer, order_shows_in_refused_keys_only .byKey ⟨List.reverse, List.reverse_perm⟩
    (Schema.text "text") _ _ [(.text "10.0.0.0/8", .null), (.text "::/0", .text "any"),
      (.text "::ffff:10.0.0.0/104", .text "last")] hdiffer (List.reverse_perm _).symm⟩

end CidrTable.Table
