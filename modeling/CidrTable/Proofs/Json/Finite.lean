import CidrTable.Json.Reader
import CidrTable.Proofs.Datum

/-! Documents read from text have finite numbers.

A numeral past the largest binary number is refused, not rounded to an infinity, so whatever
a reader takes off a text holds finite numbers only (`isFinite_of_ofString`). -/
namespace CidrTable.Json

variable {α β : Type}

/-- Whatever comes out has the property. -/
def Ensures (P : α → Prop) (r : Except SyntaxError α) : Prop := ∀ x, r = .ok x → P x

theorem ensures_ok {P : α → Prop} {x : α} (h : P x) : Ensures P (.ok x) := by
  intro y hy
  obtain rfl := Except.ok.inj hy
  exact h

theorem ensures_error {P : α → Prop} (e : SyntaxError) : Ensures P (.error e) := nofun

theorem Ensures.bind {P : α → Prop} {Q : β → Prop} {r : Except SyntaxError α}
    {f : α → Except SyntaxError β} (hr : Ensures P r) (hf : ∀ x, P x → Ensures Q (f x)) :
    Ensures Q (r >>= f) := by
  cases r with
  | error e => exact ensures_error e
  | ok x => exact hf x (hr x rfl)

theorem Ensures.map {P : α → Prop} {Q : β → Prop} {r : Except SyntaxError α} {f : α → β}
    (hr : Ensures P r) (hf : ∀ x, P x → Q (f x)) : Ensures Q (r.map f) := by
  cases r with
  | error e => exact ensures_error e
  | ok x => exact ensures_ok (hf x (hr x rfl))

theorem ensures_any (r : Except SyntaxError α) : Ensures (fun _ => True) r := fun _ _ => trivial

/-- A first step that says nothing may be passed over. -/
theorem ensures_bind {Q : β → Prop} (r : Except SyntaxError α) {f : α → Except SyntaxError β}
    (hf : ∀ x, Ensures Q (f x)) : Ensures Q (r >>= f) :=
  (ensures_any r).bind fun x _ => hf x

/-- Whatever the reader takes off a text has the property. -/
def Yields (P : α → Prop) (r : Reader α) : Prop := ∀ cs, Ensures (fun read => P read.1) (r cs)

/-! ### Numbers -/

theorem isFinite_ofSignificand (negative : Bool) (significand : Nat) :
    (ofSignificand negative significand).isFinite = true := by
  unfold ofSignificand
  split
  · rfl
  · split <;> rfl

theorem yields_numberRest (negative : Bool) :
    Yields (fun j => j.isFinite = true) (numberRest negative) := by
  intro cs
  unfold numberRest
  -- What is read behind the whole digits, and what is made of it all behind the exponent.
  extract_lets whole behind
  have hbehind : ∀ u, Ensures (fun read => read.1.isFinite = true) (behind u) := by
    intro u
    refine ensures_bind _ fun fraction => ?_
    dsimp -zeta only
    extract_lets read finish
    have hfinish : ∀ e, Ensures (fun read => read.1.isFinite = true) (finish e) := by
      intro e
      show Ensures _ (ite _ _ _)
      split
      · exact ensures_ok (isFinite_ofSignificand _ _)
      · exact ensures_bind _ fun units => ensures_ok rfl
    split <;> exact ensures_bind _ hfinish
  split
  · exact ensures_bind _ hbehind
  · exact hbehind ()

/-! ### Containers -/

/-- If every item read has a property, all of a list have it; the induction is on the fuel. -/
theorem yields_itemsRest {P : α → Prop} {item : Reader α} (h : Yields P item) (close : Char)
    (fuel : Nat) : Yields (fun xs => ∀ x ∈ xs, P x) (itemsRest item close fuel) := by
  induction fuel with
  | zero => exact fun cs => ensures_error _
  | succ fuel ih =>
    intro cs
    refine (h cs).bind fun read hread => ?_
    dsimp only
    split
    · refine (ih _).bind fun more hmore => ensures_ok ?_
      exact List.forall_mem_cons.mpr ⟨hread, hmore⟩
    · split
      · exact ensures_ok (List.forall_mem_singleton.mpr hread)
      · exact ensures_error _
    · exact ensures_error _

theorem yields_items {P : α → Prop} {item : Reader α} (h : Yields P item) (close : Char) :
    Yields (fun xs => ∀ x ∈ xs, P x) (items item close) := by
  intro cs
  unfold items
  split
  · exact ensures_error _
  · split
    · exact ensures_ok nofun
    · exact yields_itemsRest h close _ cs

theorem yields_field {P : Json → Prop} {value : Reader Json} (h : Yields P value) :
    Yields (fun e => P e.2) (field value) := by
  intro cs
  unfold field
  split
  · refine ensures_bind _ fun key => ?_
    dsimp only
    split
    · exact (h _).bind fun read hread => ensures_ok hread
    · exact ensures_error _
  · exact ensures_error _

/-! ### Documents -/

theorem itemsFinite_of_forall (items : List Json) (h : ∀ j ∈ items, j.isFinite = true) :
    itemsFinite items = true := by
  induction items with
  | nil => rfl
  | cons j items ih =>
    obtain ⟨hj, hitems⟩ := List.forall_mem_cons.mp h
    exact Bool.and_eq_true_iff.mpr ⟨hj, ih hitems⟩

theorem fieldsFinite_of_forall (fields : List (String × Json))
    (h : ∀ e ∈ fields, e.2.isFinite = true) : fieldsFinite fields = true := by
  induction fields with
  | nil => rfl
  | cons f fields ih =>
    obtain ⟨hf, hfields⟩ := List.forall_mem_cons.mp h
    exact Bool.and_eq_true_iff.mpr ⟨hf, ih hfields⟩

theorem yields_word (j : Json) (letters : String) (h : j.isFinite = true) :
    Yields (fun j => j.isFinite = true) (word j letters) := by
  intro cs
  unfold word
  split
  · exact ensures_ok h
  · exact ensures_error _

/-- A document is finite if those inside its containers are. -/
theorem yields_valueWith (inner : Option (Reader Json))
    (h : ∀ value, inner = some value → Yields (fun j => j.isFinite = true) value) :
    Yields (fun j => j.isFinite = true) (valueWith inner) := by
  intro cs
  unfold valueWith
  dsimp only
  -- By the first character: none, that of a string, a list, an object, a number or a word.
  split
  · exact ensures_error _
  · exact (ensures_any _).map fun _ _ => rfl
  · split
    case h_1 => exact ensures_error _
    case h_2 value =>
      exact (yields_items (h value rfl) _ _).map fun read => itemsFinite_of_forall read.1
  · split
    case h_1 => exact ensures_error _
    case h_2 value =>
      exact (yields_items (yields_field (h value rfl)) _ _).map fun read =>
        fieldsFinite_of_forall read.1
  · exact yields_numberRest _ _
  · exact yields_word _ _ rfl _
  · exact yields_word _ _ rfl _
  · exact yields_word _ _ rfl _
  · exact yields_numberRest _ _

/-- The induction is on the room left for containers. -/
theorem yields_value (room : Nat) : Yields (fun j => j.isFinite = true) (value room) := by
  induction room with
  | zero => exact yields_valueWith none nofun
  | succ room ih =>
    refine yields_valueWith _ fun value hvalue => ?_
    obtain rfl := Option.some.inj hvalue
    exact ih

/-- A text that is a document holds nothing but blanks behind it. -/
theorem readFront_of_ofString (s : String) (j : Json) (h : ofString s = .ok j) :
    ∃ rest, readFront s.toList = .ok (j, rest) ∧ (skipBlanks rest).isEmpty = true := by
  rw [ofString] at h
  cases hfront : readFront s.toList with
  | error e =>
    rw [hfront] at h
    cases h
  | ok read =>
    obtain ⟨j', rest⟩ := read
    rw [hfront] at h
    have hrest : (if (skipBlanks rest).isEmpty then Except.ok j'
        else .error SyntaxError.malformed) = .ok j := h
    split at hrest
    case isTrue hblank => exact ⟨rest, by rw [Except.ok.inj hrest], hblank⟩
    case isFalse => cases hrest

/-- **A document that a text holds has finite numbers.** -/
theorem isFinite_of_ofString (s : String) (j : Json) (h : ofString s = .ok j) :
    j.isFinite = true := by
  obtain ⟨rest, hfront, -⟩ := readFront_of_ofString s j h
  exact yields_value depthLimit s.toList (j, rest) hfront

end CidrTable.Json
