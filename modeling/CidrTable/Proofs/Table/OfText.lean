import CidrTable.Proofs.Json.Front
import CidrTable.Proofs.Table.Presented
import Mathlib.Tactic.ByContra

/-! Tables from text and tables from documents.

A reader of text sees an object's fields as they were written, a document holds them in key
order and of a repeated key the last one. Where keys that differ denote different prefixes the
last document under each prefix is the same for both (`lastUnder_ofPairs`), so both come to
the same result, and a refused key is refused by both, if not the same one of several
(`ofEntries_ofPairs`). Hence the text of a document holds the table that the document holds,
and fails as it fails (`ofText_agrees`). -/
namespace CidrTable

variable {V : Type}

/-- Keys that differ denote different prefixes. -/
def KeysApart (keys : List String) : Prop :=
  ∀ k ∈ keys, ∀ l ∈ keys, ∀ p, Prefix.ofString k = .ok p → Prefix.ofString l = .ok p → k = l

/-- Every key denotes a prefix. -/
def KeysDenote (keys : List String) : Prop := ∀ k ∈ keys, ∃ p, Prefix.ofString k = .ok p

/-- The failure names a key that denotes no prefix, by its place among the keys. -/
inductive KeyFailure (keys : List String) : DecodeError → Prop where
  | refused (index : Nat) (key : String) (cause : KeyError) : keys[index]? = some key →
      Prefix.ofString key = .error cause → KeyFailure keys (.subnet index key cause)

/-! ### Entries of an object -/

theorem RawKey.prefix?_text_iff (key : String) (p : Prefix) :
    (RawKey.text key).prefix? = some p ↔ Prefix.ofString key = .ok p :=
  toOption_eq_some_iff _ p

instance (keys : List String) : Decidable (KeysApart keys) :=
  decidable_of_iff (∀ k ∈ keys, ∀ l ∈ keys, (RawKey.text k).prefix? = (RawKey.text l).prefix? →
    (RawKey.text k).prefix? ≠ none → k = l) <| by
    refine forall₄_congr fun k _ l _ => ⟨fun h p hk hl => ?_, fun h heq hsome => ?_⟩
    · rw [← RawKey.prefix?_text_iff] at hk hl
      exact h (hk.trans hl.symm) (by simp [hk])
    · obtain ⟨p, hp⟩ := Option.ne_none_iff_exists'.mp hsome
      exact h p ((RawKey.prefix?_text_iff k p).mp hp) ((RawKey.prefix?_text_iff l p).mp (heq ▸ hp))

theorem keysDenote_iff (fields : List (String × Json)) :
    KeysDenote (fields.map Prod.fst) ↔ ∀ b ∈ entriesOf fields, b.1.prefix? ≠ none := by
  simp only [KeysDenote, entriesOf, List.forall_mem_map, Option.ne_none_iff_exists',
    RawKey.prefix?_text_iff]

theorem mem_keys_ofPairs (fields : List (String × Json)) (key : String) :
    key ∈ (Fields.ofPairs fields).map Prod.fst ↔ key ∈ fields.map Prod.fst := by
  have hkeys := Fields.exists_mem_ofPairs_iff fields key
  simpa using hkeys

theorem keysDenote_ofPairs (fields : List (String × Json)) :
    KeysDenote ((Fields.ofPairs fields).map Prod.fst) ↔ KeysDenote (fields.map Prod.fst) :=
  forall_congr' fun key => imp_congr_left (mem_keys_ofPairs fields key)

theorem KeysApart.ofPairs {fields : List (String × Json)} (h : KeysApart (fields.map Prod.fst)) :
    KeysApart ((Fields.ofPairs fields).map Prod.fst) := by
  intro k hk l hl
  exact h k ((mem_keys_ofPairs fields k).mp hk) l ((mem_keys_ofPairs fields l).mp hl)

/-- Where keys are apart, the last document under a prefix is the last under the key. -/
theorem lastWrite_entriesOf (fields : List (String × Json)) (h : KeysApart (fields.map Prod.fst))
    (key : String) (hkey : key ∈ fields.map Prod.fst) (p : Prefix)
    (hp : Prefix.ofString key = .ok p) :
    lastWrite (denotations (entriesOf fields)) (some p) = lastWrite fields key := by
  have hapart : ∀ e ∈ fields, (RawKey.text e.1).prefix? = (RawKey.text key).prefix? → e.1 = key := by
    intro e he heq
    rw [(RawKey.prefix?_text_iff key p).mpr hp, RawKey.prefix?_text_iff] at heq
    exact h e.1 (List.mem_map_of_mem he) key hkey p heq hp
  have hmap := lastWrite_map_of_apart (fun k => (RawKey.text k).prefix?) id fields key hapart
  rw [(RawKey.prefix?_text_iff key p).mpr hp, Option.map_id] at hmap
  rw [denotations, entriesOf, List.map_map]
  exact hmap

/-- The last document under a prefix is the last one written to a key that denotes it. -/
theorem lastUnder_entriesOf_iff (fields : List (String × Json)) (h : KeysApart (fields.map Prod.fst))
    (p : Prefix) (raw : Json) :
    Table.LastUnder (entriesOf fields) p raw ↔
      ∃ key, Prefix.ofString key = .ok p ∧ lastWrite fields key = some raw := by
  rw [Table.lastUnder_iff]
  constructor
  · intro hlast
    obtain ⟨e, he, heq⟩ := List.mem_map.mp (mem_of_lastWrite hlast)
    obtain ⟨f, hf, rfl⟩ := List.mem_map.mp he
    have hp : Prefix.ofString f.1 = .ok p :=
      (RawKey.prefix?_text_iff f.1 p).mp (Prod.mk.inj heq).1
    refine ⟨f.1, hp, ?_⟩
    rw [← lastWrite_entriesOf fields h f.1 (List.mem_map_of_mem hf) p hp]
    exact hlast
  · intro hkey
    obtain ⟨key, hp, hlast⟩ := hkey
    rw [lastWrite_entriesOf fields h key (List.mem_map_of_mem (mem_of_lastWrite hlast)) p hp]
    exact hlast

/-- **Putting fields in order changes no prefix's last document**, where keys are apart. -/
theorem lastUnder_ofPairs (fields : List (String × Json)) (h : KeysApart (fields.map Prod.fst))
    (p : Prefix) (raw : Json) :
    Table.LastUnder (entriesOf (Fields.ofPairs fields)) p raw ↔
      Table.LastUnder (entriesOf fields) p raw := by
  simp only [lastUnder_entriesOf_iff _ h.ofPairs, lastUnder_entriesOf_iff _ h,
    Fields.lastWrite_ofPairs]

namespace Table

/-- Where every key is good and keys are apart, fields give one result, in order or not. -/
theorem ofEntries_ofPairs (S : Schema V) (fields : List (String × Json))
    (hapart : KeysApart (fields.map Prod.fst)) (hkeys : KeysDenote (fields.map Prod.fst)) :
    (ofEntries S (entriesOf (Fields.ofPairs fields))).result =
      (ofEntries S (entriesOf fields)).result := by
  obtain ⟨r, hr⟩ := exists_verdict S (entriesOf fields)
  have hgood := (keysDenote_iff fields).mp hkeys
  have hgood' := (keysDenote_iff _).mp ((keysDenote_ofPairs fields).mpr hkeys)
  have hr' : Verdict S (entriesOf (Fields.ofPairs fields)) r :=
    hr.congr hgood hgood' fun p raw => (lastUnder_ofPairs fields hapart p raw).symm
  rw [hr.result_eq, hr'.result_eq]

theorem exists_keyFailure (S : Schema V) (fields : List (String × Json))
    (hkeys : ¬ KeysDenote (fields.map Prod.fst)) :
    ∃ e, (ofEntries S (entriesOf fields)).result = .error e ∧ KeyFailure (fields.map Prod.fst) e := by
  obtain ⟨r, hr⟩ := exists_verdict S (entriesOf fields)
  rw [keysDenote_iff] at hkeys
  cases hr with
  | refused before key raw after e hentries hbefore hrefused =>
    refine ⟨e, Verdict.result_eq (.refused before key raw after e hentries hbefore hrefused), ?_⟩
    obtain ⟨before', rest, rfl, rfl, hrest⟩ := List.map_eq_append_iff.mp hentries
    obtain ⟨f, after', rfl, hf, rfl⟩ := List.map_eq_cons_iff.mp hrest
    obtain ⟨rfl, rfl⟩ := Prod.mk.inj hf
    cases hrefused with
    | text key cause hcause =>
      refine .refused _ _ cause ?_ ?_
      · simp
      · rw [Prefix.ofString, hcause]
        rfl
  | failed p raw e hgood => exact absurd hgood hkeys
  | table t hgood => exact absurd hgood hkeys

end Table

/-! ### Keys of documents -/

/-- In key order or not, a document has the same keys. -/
theorem Json.keysDenote_canonical (j : Json) : KeysDenote j.canonical.keys ↔ KeysDenote j.keys := by
  cases j with
  | object fields =>
    rw [← Json.keys_outermost (.object fields)]
    exact keysDenote_ofPairs _
  | _ => rfl

namespace Outcome

/-- Where every key is good, a failure is that of a value. -/
theorem eq_value_of_keysDenote (S : Schema V) (raw : Json) (e : DecodeError)
    (hkeys : KeysDenote raw.keys) (h : (ofJson S raw).result = .failed e) :
    ∃ cause, e = .value S.name cause := by
  obtain ⟨entries, hentriesOf, hentries⟩ := exists_entries_of_failed S raw e h
  have hgood : ∀ b ∈ entries, b.1.prefix? ≠ none := by
    cases hentriesOf with
    | object fields => exact (keysDenote_iff fields).mp hkeys
    | bare raw hb => exact List.forall_mem_singleton.mpr nofun
  cases (Table.result_iff_verdict S _ _).mp hentries with
  | refused before key raw after e hsplit _ hrefused =>
    have hmem : (key, raw) ∈ entries := hsplit ▸ List.mem_append_right _ List.mem_cons_self
    exact absurd hrefused.prefix?_eq_none (hgood (key, raw) hmem)
  | failed p raw e => exact ⟨e.report, rfl⟩

theorem exists_keyFailure (S : Schema V) (raw : Json) (hkeys : ¬ KeysDenote raw.keys) :
    ∃ e, (ofJson S raw).result = .failed e ∧ KeyFailure raw.keys e := by
  cases raw with
  | object fields =>
    obtain ⟨e, he, hkey⟩ := Table.exists_keyFailure S fields hkeys
    exact ⟨e, congrArg ofExcept he, hkey⟩
  | _ => exact absurd nofun hkeys

end Outcome

namespace Table

/-! ### Reading text -/

/-- What a reader of text that has read this front reports of a failure. -/
def textReport (front : List Char) (e : DecodeError) : Json.Failure :=
  .data ((Located.ofString e.message).orBehind front)

/-- A text that is a document is decoded as the document, its own fields as they were written,
and failures are placed behind the front that the document is read off. -/
theorem result_ofText (S : Schema V) (s : String) (j : Json) (h : Json.ofString s = .ok j) :
    ∃ front rest, s.toList = front ++ rest ∧ Json.readFront s.toList = .ok (j, rest) ∧
      (ofText S s).result = (Outcome.ofJson S j.outermost).result.reportedBy S (textReport front) := by
  have hdatum := ofDatum_ofJson (ε := Json.SyntaxError) S j (Json.isFinite_of_ofString s j h)
  obtain ⟨rest, hfront, hrest⟩ := Json.readFront_of_ofString s j h
  refine ⟨_, rest, Json.readFront_split s.toList j rest hfront, hfront, ?_⟩
  simp only [ofText, hfront, hdatum, Reported.result_bind, Reported.result_map,
    Reported.result_pure, Outcome.mapError_reportedBy, hrest, if_true]
  exact bind_pure ((Outcome.ofJson S j.outermost).result.reportedBy S (textReport _))

/-- Where every key is good and keys are apart, it does not matter whether fields are in order. -/
theorem result_outermost (S : Schema V) (j : Json) (hapart : KeysApart j.keys)
    (hkeys : KeysDenote j.keys) :
    (Outcome.ofJson S j.outermost).result = (Outcome.ofJson S j.canonical).result := by
  cases j with
  | object fields =>
    rw [← Json.keys_outermost] at hapart hkeys
    exact congrArg Outcome.ofExcept (ofEntries_ofPairs S _ hapart hkeys).symm
  | _ => rfl

/-- What a text holds, set against what the document in it holds; the document is read off this
front of the text. -/
structure TextAgrees (S : Schema V) (s : String) (j : Json) (front : List Char) : Prop where
  /-- Both hold a table or neither does, and it is the same one. -/
  handled : ∀ t, (ofText S s).result = .ok t ↔
    (Outcome.ofJson S j.canonical).result = .handled t
  /-- Where every key is good, a failure is that of a value and both report it. -/
  value : KeysDenote j.keys → ∀ e, (Outcome.ofJson S j.canonical).result = .failed e →
    (∃ cause, e = .value S.name cause) ∧
      ∃ m, (ofText S s).result = .error (.data m) ∧ Located.Reports front e.message m
  /-- Where a key is not good, both report such a key, by its place in their order. -/
  key : ¬ KeysDenote j.keys →
    (∃ e, (Outcome.ofJson S j.canonical).result = .failed e ∧ KeyFailure j.canonical.keys e) ∧
      ∃ e m, KeyFailure j.keys e ∧ (ofText S s).result = .error (.data m) ∧
        Located.Reports front e.message m
  /-- What the document is handed back for is an error of the text. -/
  declined : ∀ raw, (Outcome.ofJson S j.canonical).result = .declined raw →
    (ofText S s).result = .error (.data ⟨(DecodeError.notApplicable S.name).message,
      Located.lineBehind front, Located.columnBehind front⟩)

/-- **A text holds what the document in it holds**, for every document whose keys are apart
and every schema. -/
theorem ofText_agrees (S : Schema V) (s : String) (j : Json) (h : Json.ofString s = .ok j)
    (hapart : KeysApart j.keys) :
    ∃ front rest, s.toList = front ++ rest ∧ Json.readFront s.toList = .ok (j, rest) ∧
      TextAgrees S s j front := by
  obtain ⟨front, rest, hs, hread, htext⟩ := result_ofText S s j h
  refine ⟨front, rest, hs, hread, ?_⟩
  have hsame := result_outermost S j hapart
  -- With a key that is not good the two may differ in which one they report, but both fail.
  have hrefused : ¬ KeysDenote j.keys →
      (∃ e, (Outcome.ofJson S j.canonical).result = .failed e ∧ KeyFailure j.canonical.keys e) ∧
        ∃ e, (Outcome.ofJson S j.outermost).result = .failed e ∧ KeyFailure j.keys e := by
    intro hkeys
    have hcanonical := Outcome.exists_keyFailure S j.canonical
    have houtermost := Outcome.exists_keyFailure S j.outermost
    rw [Json.keysDenote_canonical] at hcanonical
    rw [Json.keys_outermost] at houtermost
    exact ⟨hcanonical hkeys, houtermost hkeys⟩
  constructor
  case handled =>
    intro t
    rw [htext, Outcome.reportedBy_ok_iff]
    by_cases hkeys : KeysDenote j.keys
    case pos => rw [hsame hkeys]
    case neg =>
      obtain ⟨⟨e, he, -⟩, e', he', -⟩ := hrefused hkeys
      rw [he, he']
      exact ⟨nofun, nofun⟩
  case value =>
    intro hkeys e he
    refine ⟨Outcome.eq_value_of_keysDenote S j.canonical e ?_ he, _, ?_,
      Located.reports_orBehind front e.message⟩
    · exact (Json.keysDenote_canonical j).mpr hkeys
    · rw [htext, hsame hkeys, he, Outcome.reportedBy_failed, textReport]
  case key =>
    intro hkeys
    obtain ⟨hhook, e, he, hkey⟩ := hrefused hkeys
    refine ⟨hhook, e, _, hkey, ?_, Located.reports_orBehind front e.message⟩
    rw [htext, he, Outcome.reportedBy_failed, textReport]
  case declined =>
    intro raw hraw
    have hkeys : KeysDenote j.keys := by
      by_contra hkeys
      obtain ⟨⟨e, he, -⟩, -⟩ := hrefused hkeys
      cases hraw.symm.trans he
    have hplain := Located.ofString_of_plain _ (not_endsAt_notApplicable S.name)
    rw [htext, hsame hkeys, hraw, Outcome.reportedBy_declined, textReport, hplain]
    rfl

/-- A key written twice, with another between. -/
theorem repeated_key_agrees :
    Json.ofString "\x7b\"::/0\":\"a\",\"10.0.0.0/8\":\"b\",\"::/0\":\"c\"\x7d" =
        .ok (.object [("::/0", .text "a"), ("10.0.0.0/8", .text "b"), ("::/0", .text "c")]) ∧
      KeysApart ["::/0", "10.0.0.0/8", "::/0"] ∧
      ∃ front, TextAgrees (Schema.text "text")
        "\x7b\"::/0\":\"a\",\"10.0.0.0/8\":\"b\",\"::/0\":\"c\"\x7d"
        (.object [("::/0", .text "a"), ("10.0.0.0/8", .text "b"), ("::/0", .text "c")]) front := by
  have hread : Json.ofString "\x7b\"::/0\":\"a\",\"10.0.0.0/8\":\"b\",\"::/0\":\"c\"\x7d" =
      .ok (.object [("::/0", .text "a"), ("10.0.0.0/8", .text "b"), ("::/0", .text "c")]) := by cbv
  have hapart : KeysApart ["::/0", "10.0.0.0/8", "::/0"] := by decide +kernel
  obtain ⟨front, rest, -, -, hagrees⟩ := ofText_agrees (Schema.text "text") _ _ hread hapart
  exact ⟨hread, hapart, front, hagrees⟩

/-- An inner table's failure whose message ends at two places: the one behind is taken for the
error's, the other one ends the message that is left, and a reader of text takes it off. -/
theorem text_twice_placed (key : String) (inner : DecodeError)
    (h : inner = .subnet 0 key (.netmask "x at line 0 column 5 at line 0 column 0")) :
    (Located.ofString (DecodeError.value "table" (Located.ofString inner.message)).message).text ≠
      (DecodeError.value "table" (Located.ofString inner.message)).message := by
  have hbehind : Located.EndsAt "invalid netmask x at line 0 column 5 at line 0 column 0"
      ⟨"invalid netmask x at line 0 column 5", 0, 0⟩ :=
    Located.endsAt_place "invalid netmask x at line 0 column 5" 0 0 (by decide) (by decide)
  have hother : Located.EndsAt "invalid netmask x at line 0 column 5" ⟨"invalid netmask x", 0, 5⟩ :=
    Located.endsAt_place "invalid netmask x" 0 5 (by decide) (by decide)
  have hinner : Located.ofString inner.message =
      ⟨"key " ++ toString 0 ++ " (" ++ Text.quoted key ++ ") is not a valid subnet: " ++
        "invalid netmask x at line 0 column 5", 0, 0⟩ := by
    rw [h]
    exact Located.ofString_of_endsAt _ _ (hbehind.append _)
  rw [hinner]
  have hends := (hother.append ("key " ++ toString 0 ++ " (" ++ Text.quoted key ++
    ") is not a valid subnet: ")).append ("unable to decode " ++ Text.quoted "table" ++ ": ")
  exact hends.text_ofString_ne

/-- A place in line zero is lost to the text alone, though no key of the document itself is at
fault. -/
theorem ofText_drops_line_zero :
    Json.ofString
        "\x7b\"1::/16\":\x7b\"::/x at line 0 column 5 at line 0 column 0\":\"a\"\x7d\x7d" =
      .ok (.object [("1::/16",
        .object [("::/x at line 0 column 5 at line 0 column 0", .text "a")])]) ∧
    KeysApart ["1::/16"] ∧ KeysDenote ["1::/16"] ∧ ∃ e m,
      (Outcome.ofJson (Schema.table "table" (Schema.text "text")) (.object [("1::/16",
        .object [("::/x at line 0 column 5 at line 0 column 0", .text "a")])])).result =
          .failed e ∧
      (ofText (Schema.table "table" (Schema.text "text"))
        "\x7b\"1::/16\":\x7b\"::/x at line 0 column 5 at line 0 column 0\":\"a\"\x7d\x7d").result =
          .error (.data m) ∧
      m.text ≠ e.message := by
  have hread : Json.ofString
        "\x7b\"1::/16\":\x7b\"::/x at line 0 column 5 at line 0 column 0\":\"a\"\x7d\x7d" =
      .ok (.object [("1::/16",
        .object [("::/x at line 0 column 5 at line 0 column 0", .text "a")])]) := by cbv
  have hkey : Prefix.ofString "1::/16" = .ok (.cut (1#128 <<< 112) 16 (by decide)) := rfl
  have hhook : (Outcome.ofJson (Schema.table "table" (Schema.text "text")) (.object [("1::/16",
      .object [("::/x at line 0 column 5 at line 0 column 0", .text "a")])])).result =
        .failed (.value "table" (Located.ofString (DecodeError.subnet 0
          "::/x at line 0 column 5 at line 0 column 0"
          (.netmask "x at line 0 column 5 at line 0 column 0")).message)) := rfl
  obtain ⟨front, rest, -, -, htext⟩ := result_ofText (Schema.table "table" (Schema.text "text")) _ _ hread
  refine ⟨hread, by decide +kernel, List.forall_mem_singleton.mpr ⟨_, hkey⟩, _, _, hhook,
    htext.trans (congrArg (Outcome.reportedBy _ (textReport front)) hhook), ?_⟩
  rw [Located.text_orBehind]
  exact text_twice_placed _ _ rfl

end Table

end CidrTable
