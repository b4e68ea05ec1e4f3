import CidrTable.Proofs.Table.InsertionOrder
import CidrTable.Proofs.Table.LongestMatch

/-! What decoding entries comes to.

There are three outcomes and one of them always holds (`Verdict`): the first key that is
refused; where every key is good, the failing value whose prefix has the least text; where
every last value decodes, the table of what they decode to. `result_iff_verdict` is that
decoding gives exactly that outcome. Only last values are ever decoded
(`ofEntriesIn_congr`), and of the other failures none can arise (`Settled`). -/
namespace CidrTable.Table

variable {V : Type}

/-- What becomes of a list of entries. -/
inductive Verdict (S : Schema V) (entries : List (RawKey × Json)) :
    Except DecodeError (Table V) → Prop where
  /-- The first key that denotes no prefix is refused; what comes behind it does not matter. -/
  | refused (before : List (RawKey × Json)) (key : RawKey) (raw : Json)
      (after : List (RawKey × Json)) (e : DecodeError) :
      entries = before ++ (key, raw) :: after → (∀ b ∈ before, b.1.prefix? ≠ none) →
      Refused before.length key e → Verdict S entries (.error e)
  /-- Of the last values that fail, the one under the least text is reported. -/
  | failed (p : Prefix) (raw : Json) (e : ValueError) : (∀ b ∈ entries, b.1.prefix? ≠ none) →
      LastUnder entries p raw → (S.decode raw).result = .error e →
      (∀ q raw' e', LastUnder entries q raw' → (S.decode raw').result = .error e' →
        p.text ≤ q.text) →
      Verdict S entries (.error (.value S.name e.report))
  /-- The last values all decode, and the table holds what they decode to. -/
  | table (t : Table V) : (∀ b ∈ entries, b.1.prefix? ≠ none) →
      (∀ p raw, LastUnder entries p raw → ∃ v, (S.decode raw).result = .ok v) →
      t.Represents (decodedMap S entries) → Verdict S entries (.ok t)

/-! ### The first failure -/

/-- All members of a list have a property, or one of them is the first without it. -/
theorem forall_or_first {α : Type} (P : α → Prop) (l : List α) :
    (∀ x ∈ l, P x) ∨ ∃ before x after, l = before ++ x :: after ∧ (∀ y ∈ before, P y) ∧ ¬ P x := by
  classical
  cases hfind : l.find? fun x => !decide (P x) with
  | none =>
    left
    intro x hx
    simpa using List.find?_eq_none.mp hfind x hx
  | some x =>
    right
    obtain ⟨hx, before, after, hl, hbefore⟩ := List.find?_eq_some_iff_append.mp hfind
    exact ⟨before, x, after, hl, fun y hy => by simpa using hbefore y hy, by simpa using hx⟩

/-- Keys are collected up to the first that is refused. -/
theorem collect_of_first (index : Nat) (done : Fields Json) (before : List (RawKey × Json))
    (key : RawKey) (raw : Json) (after : List (RawKey × Json)) (e : DecodeError)
    (hbefore : ∀ b ∈ before, b.1.prefix? ≠ none) (h : Refused (index + before.length) key e) :
    (collect index done (before ++ (key, raw) :: after)).result = .error e := by
  induction before generalizing index done with
  | nil => exact collect_of_refused index done key raw after e h
  | cons b before ih =>
    obtain ⟨p, hp⟩ := Option.ne_none_iff_exists'.mp (hbefore b List.mem_cons_self)
    rw [List.cons_append, collect_of_some index done b.1 b.2 _ p hp]
    refine ih (index + 1) _ (fun c hc => hbefore c (List.mem_cons_of_mem _ hc)) ?_
    rw [Nat.add_right_comm]
    exact h

/-- Values are decoded up to the first that fails. -/
theorem decodeValues_of_first (S : Schema V) (before : List (Prefix × Json)) (p : Prefix) (raw : Json)
    (after : List (Prefix × Json)) (e : ValueError)
    (hbefore : ∀ b ∈ before, ∃ v, (S.decode b.2).result = .ok v)
    (h : (S.decode raw).result = .error e) :
    (decodeValues S (underTexts (before ++ (p, raw) :: after))).result =
      .error (.value S.name e.report) := by
  induction before with
  | nil => exact decodeValues_of_error S p.text raw _ e h
  | cons b before ih =>
    obtain ⟨v, hv⟩ := hbefore b List.mem_cons_self
    rw [List.cons_append, underTexts_cons, decodeValues_of_ok S _ _ _ v hv,
      ih fun c hc => hbefore c (List.mem_cons_of_mem _ hc)]
    rfl

/-! ### What is decoded -/

/-- Good keys are collected to the last values, each once and in order of the texts. -/
theorem exists_collected (entries : List (RawKey × Json)) (h : ∀ b ∈ entries, b.1.prefix? ≠ none) :
    ∃ listing, (collect 0 [] entries).result = .ok (underTexts listing) ∧
      listing.Pairwise (fun a b => a.1.text < b.1.text) ∧
      ∀ p raw, (p, raw) ∈ listing ↔ LastUnder entries p raw := by
  obtain ⟨writes, hdenote⟩ := exists_denote entries h
  obtain ⟨listing, hlisting⟩ := exists_listing writes
  have hsorted : listing.Pairwise fun a b => a.1.text < b.1.text := by
    have hfields : Fields.Sorted (underTexts listing) := hlisting ▸ Fields.sorted_ofPairs _
    rwa [Fields.Sorted, underTexts, List.pairwise_map] at hfields
  refine ⟨listing, ?_, hsorted, fun p raw => ?_⟩
  · exact (collect_ok_iff 0 [] entries _).mpr ⟨writes, hdenote, hlisting.symm⟩
  · rw [mem_of_listing hlisting, lastUnder_iff, hdenote.lastWrite_eq]

/-- Decoding depends on what becomes of the listed documents only. -/
theorem decodeValues_congr (S S' : Schema V) (fields : Fields Json) (hname : S'.name = S.name)
    (h : ∀ e ∈ fields, S'.decode e.2 = S.decode e.2) :
    decodeValues S' fields = decodeValues S fields := by
  induction fields with
  | nil => rfl
  | cons e fields ih =>
    obtain ⟨key, raw⟩ := e
    have hraw : S'.decode raw = S.decode raw := h (key, raw) List.mem_cons_self
    simp only [decodeValues, hraw, hname, ih fun f hf => h f (List.mem_cons_of_mem _ hf)]

/-- **No document is decoded but the last one under each prefix**: whatever other values a
schema gives the others, and whatever it reports about them, nothing changes. -/
theorem ofEntriesIn_congr (A : Arrangement V) (S S' : Schema V) (entries : List (RawKey × Json))
    (hname : S'.name = S.name) (h : ∀ p raw, LastUnder entries p raw → S'.decode raw = S.decode raw) :
    ofEntriesIn A S' entries = ofEntriesIn A S entries := by
  refine Reported.bind_congr _ _ _ ?_
  cases hc : (collect 0 [] entries).result with
  | error e => rfl
  | ok fields =>
    obtain ⟨writes, hdenote, hfields⟩ := (collect_ok_iff 0 [] entries fields).mp hc
    obtain ⟨listing, hlisting⟩ := exists_listing writes
    obtain rfl : fields = underTexts listing := hfields.trans hlisting
    have hvalues : decodeValues S' (underTexts listing) = decodeValues S (underTexts listing) := by
      refine decodeValues_congr S S' _ hname fun f hf => ?_
      obtain ⟨e, he, rfl⟩ := List.mem_map.mp hf
      refine h e.1 e.2 ((lastUnder_iff entries e.1 e.2).mpr ?_)
      rw [hdenote.lastWrite_eq]
      exact (mem_of_listing hlisting e.1 e.2).mp he
    dsimp only
    rw [hvalues]

/-! ### The verdict -/

theorem Verdict.result_eq {S : Schema V} {entries : List (RawKey × Json)}
    {r : Except DecodeError (Table V)} (h : Verdict S entries r) : (ofEntries S entries).result = r := by
  cases h with
  | refused before key raw after e hentries hbefore hrefused =>
    refine ofEntries_of_collect_error S entries e ?_
    rw [hentries]
    exact collect_of_first 0 [] before key raw after e hbefore (by rwa [Nat.zero_add])
  | failed p raw e hkeys hlast hraw hleast =>
    obtain ⟨listing, hc, hsorted, hmem⟩ := exists_collected entries hkeys
    obtain ⟨before, after, hlisting⟩ := List.append_of_mem ((hmem p raw).mpr hlast)
    have hbefore : ∀ b ∈ before, ∃ v, (S.decode b.2).result = .ok v := by
      intro b hb
      cases hdecode : (S.decode b.2).result with
      | ok v => exact ⟨v, rfl⟩
      | error f =>
        -- It stands in front of the least text that fails.
        rw [hlisting] at hsorted
        have hlt : b.1.text < p.text :=
          (List.pairwise_append.mp hsorted).2.2 b hb (p, raw) List.mem_cons_self
        have hlastb : LastUnder entries b.1 b.2 :=
          (hmem b.1 b.2).mp (hlisting ▸ List.mem_append_left _ hb)
        exact absurd hlt (String.not_lt.mpr (hleast b.1 b.2 f hlastb hdecode))
    refine ofEntries_of_decode_error S entries _ _ hc ?_
    rw [hlisting]
    exact decodeValues_of_first S before p raw after e hbefore hraw
  | table t hkeys hvalues hrep =>
    obtain ⟨listing, hc, -, hmem⟩ := exists_collected entries hkeys
    obtain ⟨values, hd⟩ := exists_decodes S listing fun e he => hvalues e.1 e.2 ((hmem e.1 e.2).mp he)
    have ht := ofEntries_of_decodes S entries listing values hc hd
    rw [ht]
    exact congrArg Except.ok ((represents_ofEntries S entries _ ht).unique hrep)

/-- Where every key is good, the last values all decode or one fails under the least text. -/
theorem decodes_or_failed (S : Schema V) (entries : List (RawKey × Json))
    (hkeys : ∀ b ∈ entries, b.1.prefix? ≠ none) :
    (∀ p raw, LastUnder entries p raw → ∃ v, (S.decode raw).result = .ok v) ∨
      ∃ p raw e, LastUnder entries p raw ∧ (S.decode raw).result = .error e ∧
        ∀ q raw' e', LastUnder entries q raw' → (S.decode raw').result = .error e' →
          p.text ≤ q.text := by
  obtain ⟨listing, -, hsorted, hmem⟩ := exists_collected entries hkeys
  rcases forall_or_first (fun e : Prefix × Json => ∃ v, (S.decode e.2).result = .ok v) listing with
    hvalues | ⟨before, ⟨p, raw⟩, after, rfl, hbefore, hraw⟩
  · exact .inl fun p raw hlast => hvalues (p, raw) ((hmem p raw).mpr hlast)
  · right
    cases hdecode : (S.decode raw).result with
    | ok v => exact absurd ⟨v, hdecode⟩ hraw
    | error e =>
      refine ⟨p, raw, e, (hmem p raw).mp (by simp), hdecode, fun q raw' e' hq hfail => ?_⟩
      rcases List.mem_append.mp ((hmem q raw').mpr hq) with hb | hb
      · obtain ⟨v, hv⟩ := hbefore (q, raw') hb
        cases hfail.symm.trans hv
      · rcases List.mem_cons.mp hb with heq | hafter
        · obtain rfl : q = p := (Prod.mk.inj heq).1
          exact String.le_refl _
        · have hlt := List.rel_of_pairwise_cons (List.pairwise_append.mp hsorted).2.1 hafter
          exact String.not_lt.mp (String.lt_asymm hlt)

theorem exists_verdict (S : Schema V) (entries : List (RawKey × Json)) : ∃ r, Verdict S entries r := by
  rcases forall_or_first (fun b : RawKey × Json => b.1.prefix? ≠ none) entries with
    hkeys | ⟨before, ⟨key, raw⟩, after, hentries, hbefore, hkey⟩
  · rcases decodes_or_failed S entries hkeys with hvalues | ⟨p, raw, e, hlast, hraw, hleast⟩
    · obtain ⟨listing, hc, -, hmem⟩ := exists_collected entries hkeys
      obtain ⟨values, hd⟩ :=
        exists_decodes S listing fun e he => hvalues e.1 e.2 ((hmem e.1 e.2).mp he)
      have ht := ofEntries_of_decodes S entries listing values hc hd
      exact ⟨_, .table _ hkeys hvalues (represents_ofEntries S entries _ ht)⟩
    · exact ⟨_, .failed p raw e hkeys hlast hraw hleast⟩
  · obtain ⟨e, he⟩ := exists_refused before.length key (not_not.mp hkey)
    exact ⟨_, .refused before key raw after e hentries hbefore he⟩

/-- **Decoding entries gives the verdict and nothing else.** -/
theorem result_iff_verdict (S : Schema V) (entries : List (RawKey × Json))
    (r : Except DecodeError (Table V)) : (ofEntries S entries).result = r ↔ Verdict S entries r := by
  constructor
  · rintro rfl
    obtain ⟨r, hr⟩ := exists_verdict S entries
    rw [hr.result_eq]
    exact hr
  · exact Verdict.result_eq

/-- Where every key is good, only the last document under each prefix counts for the verdict. -/
theorem Verdict.congr {S : Schema V} {entries entries' : List (RawKey × Json)}
    {r : Except DecodeError (Table V)} (hkeys : ∀ b ∈ entries, b.1.prefix? ≠ none)
    (hkeys' : ∀ b ∈ entries', b.1.prefix? ≠ none)
    (h : ∀ p raw, LastUnder entries p raw ↔ LastUnder entries' p raw) (hr : Verdict S entries r) :
    Verdict S entries' r := by
  cases hr with
  | refused before key raw after e hentries hbefore hrefused =>
    have hmem : (key, raw) ∈ entries := hentries ▸ List.mem_append_right _ List.mem_cons_self
    exact absurd hrefused.prefix?_eq_none (hkeys (key, raw) hmem)
  | failed p raw e _ hlast hraw hleast =>
    exact .failed p raw e hkeys' ((h p raw).mp hlast) hraw fun q raw' e' hq =>
      hleast q raw' e' ((h q raw').mpr hq)
  | table t _ hvalues hrep =>
    have hmap : decodedMap S entries = decodedMap S entries' := by
      funext p
      have hlast : lastWrite (denotations entries) (some p) =
          lastWrite (denotations entries') (some p) := by
        apply Option.ext
        intro raw
        rw [← lastUnder_iff, ← lastUnder_iff, h]
      rw [decodedMap, decodedMap, hlast]
    exact .table t hkeys' (fun p raw hp => hvalues p raw ((h p raw).mpr hp)) (hmap ▸ hrep)

/-- The failures that decoding entries has no use for. -/
theorem Verdict.kinds {S : Schema V} {entries : List (RawKey × Json)} {e : DecodeError}
    (h : Verdict S entries (.error e)) :
    (∀ index bits, e ≠ .maskWidth index bits) ∧ ∀ name, e ≠ .notApplicable name := by
  cases h with
  | refused _ _ _ _ _ _ _ hrefused => cases hrefused <;> exact ⟨nofun, nofun⟩
  | failed => exact ⟨nofun, nofun⟩

/-! ### All that decoding does -/

/-- What decoding entries does, in whatever order the decoded values are inserted. -/
structure Settled (A : Arrangement V) (S : Schema V) (entries : List (RawKey × Json)) : Prop where
  /-- The result is the verdict. -/
  verdict : ∀ r, (ofEntriesIn A S entries).result = r ↔ Verdict S entries r
  /-- A table has every denoted prefix once, with what the last value under it decodes to. -/
  holds : ∀ t, (ofEntriesIn A S entries).result = .ok t → (t.toList.map Prod.fst).Nodup ∧
    ∀ p v, (p, v) ∈ t.toList ↔ ∃ raw, LastUnder entries p raw ∧ (S.decode raw).result = .ok v
  /-- No canonical text is refused when the decoded values are inserted. -/
  inserts : ∀ fields decoded, (collect 0 [] entries).result = .ok fields →
    (decodeValues S fields).result = .ok decoded →
    ∃ trie, (insertAll 0 .empty (A.arrange decoded)).result = .ok trie
  /-- No mask is of a wrong width, and entries are never taken for something else. -/
  kinds : ∀ e, (ofEntriesIn A S entries).result = .error e →
    (∀ index bits, e ≠ .maskWidth index bits) ∧ ∀ name, e ≠ .notApplicable name
  /-- No overridden document is decoded: what it would decode to, or report, changes nothing. -/
  spared : ∀ S' : Schema V, S'.name = S.name →
    (∀ p raw, LastUnder entries p raw → S'.decode raw = S.decode raw) →
    ofEntriesIn A S' entries = ofEntriesIn A S entries

/-- **Decoding entries is settled by the verdict**, for all entries and every schema. -/
theorem ofEntriesIn_settled (A : Arrangement V) (S : Schema V) (entries : List (RawKey × Json)) :
    Settled A S entries := by
  constructor
  case verdict =>
    intro r
    rw [result_ofEntriesIn]
    exact result_iff_verdict S entries r
  case holds =>
    intro t ht
    rw [result_ofEntriesIn] at ht
    have hrep := represents_ofEntries S entries t ht
    refine ⟨hrep.nodup_keys, fun p v => ?_⟩
    rw [hrep.mem_iff, decodedMap, Option.bind_eq_some_iff]
    exact exists_congr fun raw =>
      and_congr (lastUnder_iff entries p raw).symm (toOption_eq_some_iff _ v)
  case inserts =>
    intro fields decoded hc hv
    obtain ⟨values, rfl, hnodup⟩ := exists_values S entries fields decoded hc hv
    obtain ⟨stored, -, hinserted⟩ := insertAll_arranged A values hnodup
    exact ⟨_, congrArg Reported.result hinserted⟩
  case kinds =>
    intro e he
    rw [result_ofEntriesIn] at he
    exact ((result_iff_verdict S entries _).mp he).kinds
  case spared =>
    intro S' hname hvalues
    exact ofEntriesIn_congr A S S' entries hname hvalues

/-- An overridden document that is no value does no harm. -/
example :
    (ofEntries (Schema.text "text")
      [(.text "10.0.0.0/8", .null), (.text "::ffff:10.0.0.0/104", .text "last")]).result =
      .ok (ofTrie (.ofList [(.cut (Address.mapped 0x0A000000) 104 (by decide), "last")])) := rfl

end CidrTable.Table
