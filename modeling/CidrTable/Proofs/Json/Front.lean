import CidrTable.Proofs.Json.Finite

/-! What a reader leaves of a text.

A reader takes characters off the front and leaves the end of what it was given (`Leaves`), so
the front that it took is what stands before the rest (`readFront_split`). -/
namespace CidrTable.Json

variable {α β : Type}

/-- What the reader leaves is the end of what it was given. -/
def Leaves (r : Reader α) : Prop := ∀ cs, Ensures (fun read => read.2 <:+ cs) (r cs)

/-- A reader that starts further on in a text leaves an end of the text all the same. -/
theorem Ensures.suffix {cs cs' : List Char} {r : Except SyntaxError (α × List Char)}
    (h : Ensures (fun read => read.2 <:+ cs) r) (hcs : cs <:+ cs') :
    Ensures (fun read => read.2 <:+ cs') r := fun read hread => (h read hread).trans hcs

/-- One reader goes on where another has stopped. -/
theorem Ensures.andThen {cs : List Char} {r : Except SyntaxError (α × List Char)}
    {f : α × List Char → Except SyntaxError (β × List Char)}
    (hr : Ensures (fun read => read.2 <:+ cs) r)
    (hf : ∀ x rest, Ensures (fun read => read.2 <:+ rest) (f (x, rest))) :
    Ensures (fun read => read.2 <:+ cs) (r >>= f) :=
  hr.bind fun read hread => (hf read.1 read.2).suffix hread

theorem Ensures.mapFirst {cs : List Char} {r : Except SyntaxError (α × List Char)} (f : α → β)
    (h : Ensures (fun read => read.2 <:+ cs) r) :
    Ensures (fun read => read.2 <:+ cs) (r.map fun read => (f read.1, read.2)) :=
  h.map fun _ hread => hread

theorem skipBlanks_suffix (cs : List Char) : skipBlanks cs <:+ cs := List.dropWhile_suffix _

theorem suffix_of_skipBlanks_eq_cons {cs : List Char} {c : Char} {rest : List Char}
    (h : skipBlanks cs = c :: rest) : rest <:+ cs :=
  (List.suffix_cons c rest).trans (h ▸ skipBlanks_suffix cs)

/-! ### Strings -/

theorem leaves_stringRest (read : List Char) : Leaves (stringRest read) := by
  intro cs
  fun_induction stringRest read cs with
  | case1 | case3 | case6 | case7 | case9 | case10 => exact ensures_error _
  | case2 read rest => exact ensures_ok (List.suffix_cons _ rest)
  | case4 _ _ _ _ _ _ _ _ _ ih => exact ih.suffix ⟨[_, _, _, _, _, _], rfl⟩
  | case5 _ _ _ _ _ _ _ _ _ _ _ _ _ _ _ ih =>
    exact ih.suffix ⟨[_, _, _, _, _, _, _, _, _, _, _, _], rfl⟩
  | case8 _ _ _ _ _ _ ih => exact ih.suffix ⟨[_, _], rfl⟩
  | case11 _ _ _ _ _ _ _ ih => exact ih.suffix (List.suffix_cons _ _)

/-! ### Numbers -/

theorem leaves_exponentRest : Leaves exponentRest := by
  intro cs
  unfold exponentRest
  split
  case h_1 negative digits hsign =>
    have hdigits : digits <:+ cs := by
      split at hsign <;> obtain ⟨-, rfl⟩ := Prod.mk.inj hsign
      · exact List.suffix_cons _ _
      · exact List.suffix_cons _ _
      · exact List.suffix_rfl
    split
    · exact ensures_ok ((List.dropWhile_suffix _).trans hdigits)
    · exact ensures_error _

theorem leaves_fractionRest : Leaves fractionRest := by
  intro cs
  unfold fractionRest
  split
  case h_1 rest =>
    extract_lets fraction
    split
    · exact ensures_error _
    · exact ensures_ok ((List.dropWhile_suffix _).trans (List.suffix_cons _ rest))
  case h_2 => exact ensures_ok List.suffix_rfl

theorem leaves_numberRest (negative : Bool) : Leaves (numberRest negative) := by
  intro cs
  unfold numberRest
  -- What is read behind the whole digits, and what is made of it all behind the exponent.
  extract_lets whole behind
  have hbehind : ∀ u, Ensures (fun read => read.2 <:+ cs) (behind u) := by
    intro u
    refine ((leaves_fractionRest _).suffix (List.dropWhile_suffix _)).andThen fun fraction rest => ?_
    dsimp -zeta only
    extract_lets read finish
    have hfinish : ∀ exponent rest, Ensures (fun read => read.2 <:+ rest) (finish (exponent, rest)) := by
      intro exponent rest
      show Ensures _ (ite _ _ _)
      split
      · exact ensures_ok List.suffix_rfl
      · exact ensures_bind _ fun units => ensures_ok List.suffix_rfl
    split
    · exact (((leaves_exponentRest _).mapFirst _).suffix (List.suffix_cons _ _)).andThen hfinish
    · exact (((leaves_exponentRest _).mapFirst _).suffix (List.suffix_cons _ _)).andThen hfinish
    · exact hfinish _ _
  split
  · exact ensures_bind _ hbehind
  · exact hbehind ()

/-! ### Containers -/

theorem leaves_itemsRest {item : Reader α} (h : Leaves item) (close : Char) (fuel : Nat) :
    Leaves (itemsRest item close fuel) := by
  induction fuel with
  | zero => exact fun cs => ensures_error _
  | succ fuel ih =>
    intro cs
    refine (h cs).andThen fun x rest => ?_
    dsimp only
    split
    case h_1 rest' hcomma =>
      refine Ensures.andThen ((ih rest').suffix (suffix_of_skipBlanks_eq_cons hcomma)) ?_
      exact fun xs rest => ensures_ok List.suffix_rfl
    case h_2 c rest' hclose =>
      split
      · exact ensures_ok (suffix_of_skipBlanks_eq_cons hclose)
      · exact ensures_error _
    case h_3 => exact ensures_error _

theorem leaves_items {item : Reader α} (h : Leaves item) (close : Char) :
    Leaves (items item close) := by
  intro cs
  unfold items
  split
  case h_1 => exact ensures_error _
  case h_2 c rest hfirst =>
    split
    · exact ensures_ok (suffix_of_skipBlanks_eq_cons hfirst)
    · exact leaves_itemsRest h close _ cs

theorem leaves_field {value : Reader Json} (h : Leaves value) : Leaves (field value) := by
  intro cs
  unfold field
  split
  case h_1 rest hquote =>
    refine ((leaves_stringRest [] rest).suffix (suffix_of_skipBlanks_eq_cons hquote)).andThen ?_
    intro key rest
    dsimp only
    split
    case h_1 rest' hcolon =>
      refine Ensures.andThen ((h rest').suffix (suffix_of_skipBlanks_eq_cons hcolon)) ?_
      exact fun j rest => ensures_ok List.suffix_rfl
    case h_2 => exact ensures_error _
  case h_2 => exact ensures_error _

/-! ### Documents -/

theorem leaves_word (j : Json) (letters : String) : Leaves (word j letters) := by
  intro cs
  unfold word
  split
  · exact ensures_ok (List.drop_suffix _ _)
  · exact ensures_error _

/-- A reader of documents leaves an end of the text if the reader of what they hold does. -/
theorem leaves_valueWith (inner : Option (Reader Json))
    (h : ∀ value, inner = some value → Leaves value) : Leaves (valueWith inner) := by
  intro cs
  unfold valueWith
  refine Ensures.suffix ?_ (skipBlanks_suffix cs)
  generalize skipBlanks cs = cs
  dsimp only
  split
  · exact ensures_error _
  · exact ((leaves_stringRest _ _).mapFirst _).suffix (List.suffix_cons _ _)
  · split
    case h_1 => exact ensures_error _
    case h_2 value =>
      exact ((leaves_items (h value rfl) _ _).mapFirst _).suffix (List.suffix_cons _ _)
  · split
    case h_1 => exact ensures_error _
    case h_2 value =>
      exact ((leaves_items (leaves_field (h value rfl)) _ _).mapFirst _).suffix
        (List.suffix_cons _ _)
  · exact (leaves_numberRest _ _).suffix (List.suffix_cons _ _)
  · exact leaves_word _ _ _
  · exact leaves_word _ _ _
  · exact leaves_word _ _ _
  · exact leaves_numberRest _ _

/-- The induction is on the room left for containers. -/
theorem leaves_value (room : Nat) : Leaves (value room) := by
  induction room with
  | zero => exact leaves_valueWith none nofun
  | succ room ih =>
    refine leaves_valueWith _ fun value hvalue => ?_
    obtain rfl := Option.some.inj hvalue
    exact ih

theorem frontOf_append (front rest : List Char) : frontOf (front ++ rest) rest = front := by
  rw [frontOf, List.length_append, Nat.add_sub_cancel, List.take_left]

/-- **A document is read off the front of a text, and the rest stands behind that front.** -/
theorem readFront_split (cs : List Char) (j : Json) (rest : List Char)
    (h : readFront cs = .ok (j, rest)) : cs = frontOf cs rest ++ rest := by
  obtain ⟨front, rfl⟩ := leaves_value depthLimit cs (j, rest) h
  rw [frontOf_append]

end CidrTable.Json
