import CidrTable.Proofs.Table.Presented

/-! Every decode is counted once.

Decoding a document decodes some documents as values (`Outcome.Tries`): the last one under each
prefix of an object, in the order of the canonical texts and no further than the first that fails;
a bare document once to see whether it is a value, and if it is, once more for good, whatever comes
of that; null not at all. What those report comes first, and one outcome is counted behind it, by
whichever way the decode was asked for (`Outcome.countedOnce`). Decoding entries alone counts
nothing (`Table.metrics_ofEntries`). Where the values are tables themselves, each of those
documents is a decode of its own and reports one outcome
(`Outcome.counted_once_at_each_level`). -/
namespace CidrTable

variable {V : Type}

/-! ### Documents decoded as values -/

/-- A document decoded as a value: lent, to see whether it is one, or for good. -/
inductive Attempt where
  | peek (raw : Json)
  | decode (raw : Json)

namespace Attempt

def document : Attempt → Json
  | peek raw => raw
  | decode raw => raw

def run (S : Schema V) : Attempt → Reported (Except ValueError V)
  | peek raw => S.peek raw
  | decode raw => S.decode raw

end Attempt

/-- Decoding values reports no metrics. -/
def Schema.Unmetered (S : Schema V) : Prop := ∀ a : Attempt, (a.run S).metrics = []

/-- What decoding values reports, one after the other. -/
def Schema.metricsOf (S : Schema V) (attempts : List Attempt) : List Metric :=
  attempts.flatMap fun a => (a.run S).metrics

/-- The documents up to the first that is no value, and that one. -/
def Schema.upToFailure (S : Schema V) : List Json → List Json
  | [] => []
  | j :: rest =>
    match (S.decode j).result with
    | .error _ => [j]
    | .ok _ => j :: S.upToFailure rest

namespace Table

/-- The documents that decoding entries decodes as values, in order. -/
inductive Tries (S : Schema V) (entries : List (RawKey × Json)) : List Json → Prop where
  /-- A key is bad, and no document is looked at. -/
  | refused : (∃ b ∈ entries, b.1.prefix? = none) → Tries S entries []
  /-- The last documents under the prefixes, in the order of the canonical texts, up to the first
  that is no value. -/
  | values (listing : List (Prefix × Json)) : (∀ b ∈ entries, b.1.prefix? ≠ none) →
      listing.Pairwise (fun a b => a.1.text < b.1.text) →
      (∀ p raw, (p, raw) ∈ listing ↔ LastUnder entries p raw) →
      Tries S entries (S.upToFailure (listing.map Prod.snd))

theorem metrics_collect (index : Nat) (done : Fields Json) (entries : List (RawKey × Json)) :
    (collect index done entries).metrics = [] := by
  induction entries generalizing index done with
  | nil => rfl
  | cons e rest ih =>
    obtain ⟨key, raw⟩ := e
    rw [collect]
    split
    · rfl
    · split <;> simp only [Reported.metrics_bind, Reported.metrics_log, ih, List.append_nil]

theorem metrics_decodeValues (S : Schema V) (fields : Fields Json) :
    (decodeValues S fields).metrics =
      S.metricsOf ((S.upToFailure (fields.map Prod.snd)).map .decode) := by
  induction fields with
  | nil => rfl
  | cons f fields ih =>
    obtain ⟨key, raw⟩ := f
    simp only [decodeValues, Reported.metrics_bind]
    cases hraw : (S.decode raw).result with
    | error e => simp [Schema.metricsOf, Schema.upToFailure, Attempt.run, hraw]
    | ok v => simp [Schema.metricsOf, Schema.upToFailure, Attempt.run, hraw, ih]

theorem metrics_insertAll (index : Nat) (trie : Trie V) (values : List (String × V)) :
    (insertAll index trie values).metrics = [] := by
  induction values generalizing index trie with
  | nil => rfl
  | cons e rest ih =>
    rw [insertAll]
    split
    · rfl
    · exact ih _ _

/-- Once the keys are collected, the metrics are those of the values. -/
theorem metrics_ofEntries_of_collect (S : Schema V) (entries : List (RawKey × Json))
    (fields : Fields Json) (hc : (collect 0 [] entries).result = .ok fields) :
    (ofEntries S entries).metrics =
      S.metricsOf ((S.upToFailure (fields.map Prod.snd)).map .decode) := by
  simp only [ofEntries, ofEntriesIn, Reported.metrics_bind, metrics_collect, hc,
    metrics_decodeValues]
  cases (decodeValues S fields).result with
  | error e => exact List.append_nil _
  | ok values =>
    simp only [Reported.metrics_bind, metrics_insertAll]
    cases (insertAll 0 .empty (S.order.arrange values)).result <;> exact List.append_nil _

/-- **Decoding entries reports what its values do and nothing of its own.** -/
theorem metrics_ofEntries (S : Schema V) (entries : List (RawKey × Json)) :
    ∃ js, Tries S entries js ∧ (ofEntries S entries).metrics = S.metricsOf (js.map .decode) := by
  rcases forall_or_first (fun b : RawKey × Json => b.1.prefix? ≠ none) entries with
    hkeys | ⟨before, ⟨key, raw⟩, after, hentries, hbefore, hkey⟩
  · obtain ⟨listing, hc, hsorted, hmem⟩ := exists_collected entries hkeys
    have hvalues := metrics_ofEntries_of_collect S entries _ hc
    have htexts : (underTexts listing).map Prod.snd = listing.map Prod.snd := by
      rw [underTexts, List.map_map]
      rfl
    rw [htexts] at hvalues
    exact ⟨_, .values listing hkeys hsorted hmem, hvalues⟩
  · have hbad : (key, raw).1.prefix? = none := not_not.mp hkey
    obtain ⟨e, he⟩ := exists_refused (0 + before.length) key hbad
    have hc := collect_of_first 0 [] before key raw after e hbefore he
    rw [← hentries] at hc
    refine ⟨[], .refused ⟨(key, raw), hentries ▸ by simp, hbad⟩, ?_⟩
    simp only [ofEntries, ofEntriesIn, Reported.metrics_bind, metrics_collect, hc]
    rfl

theorem metrics_ofEntries_whole (S : Schema V) (raw : Json) :
    (ofEntries S [(.text Outcome.wholeSpace, raw)]).metrics = (S.decode raw).metrics := by
  rw [metrics_ofEntries_of_collect S _ [(Outcome.wholeSpace, raw)] rfl]
  show S.metricsOf ((S.upToFailure [raw]).map .decode) = _
  cases hraw : (S.decode raw).result <;>
    simp [Schema.metricsOf, Schema.upToFailure, Attempt.run, hraw]

end Table

namespace Outcome

/-- The documents that decoding a document decodes as values, in order. -/
inductive Tries (S : Schema V) : Json → List Attempt → Prop where
  | null : Tries S .null []
  | object (fields : List (String × Json)) (js : List Json) :
      Table.Tries S (entriesOf fields) js → Tries S (.object fields) (js.map .decode)
  /-- A bare document is tried by itself. -/
  | declined (raw : Json) (e : ValueError) : raw.isBare = true → (S.peek raw).result = .error e →
      Tries S raw [.peek raw]
  /-- What is found to be a value is decoded once more for its table, and may yet fail. -/
  | accepted (raw : Json) (x : V) : raw.isBare = true → (S.peek raw).result = .ok x →
      Tries S raw [.peek raw, .decode raw]

theorem metrics_uncounted (S : Schema V) (raw : Json) :
    ∃ attempts, Tries S raw attempts ∧ (uncounted S raw).metrics = S.metricsOf attempts := by
  rcases raw.kinds with rfl | ⟨fields, rfl⟩ | hb
  · exact ⟨[], .null, rfl⟩
  · obtain ⟨js, htries, hmetrics⟩ := Table.metrics_ofEntries S (entriesOf fields)
    refine ⟨_, .object fields js htries, ?_⟩
    rw [← hmetrics]
    exact Reported.metrics_map _ _
  · rw [uncounted_of_isBare S raw hb]
    cases hraw : (S.peek raw).result with
    | error e =>
      refine ⟨[.peek raw], .declined raw e hb hraw, ?_⟩
      simp [ofBare, hraw, Schema.metricsOf, Attempt.run]
    | ok x =>
      refine ⟨[.peek raw, .decode raw], .accepted raw x hb hraw, ?_⟩
      simp [ofBare_of_accepted S raw x hraw, Schema.metricsOf, Attempt.run,
        Table.metrics_ofEntries_whole]

/-! ### Outcomes counted -/

/-- An outcome is counted once, behind the metrics of the values. -/
structure Counts (values : List Metric) (o : Outcome V) (metrics : List Metric) : Prop where
  handled : ∀ t, o = .handled t →
    metrics = values ++ [⟨"subnetmap_decodes_total", 1⟩, ⟨"subnetmap_entries", t.size⟩]
  declined : ∀ raw, o = .declined raw → metrics = values ++ [⟨"subnetmap_declined_total", 1⟩]
  failed : ∀ e, o = .failed e → metrics = values ++ [⟨"subnetmap_decode_failures_total", 1⟩]

/-- The decode of a document is counted once, whichever way it is asked for. -/
structure CountedOnce (S : Schema V) (raw : Json) (values : List Metric) : Prop where
  hook : Counts values (ofJson S raw).result (ofJson S raw).metrics
  /-- Asked for a table, the decode is handled exactly if there is one. -/
  table : Counts values (ofJson S raw).result (Table.ofJson S raw).metrics ∧
    ∀ t, (Table.ofJson S raw).result = .ok t ↔ (ofJson S raw).result = .handled t
  /-- A reader of documents gets a table exactly if the decode is handled. -/
  reader : Counts values (ofJson S raw).result (Table.readJson S raw).metrics ∧
    ∀ t, (Table.readJson S raw).result = .ok t ↔ (ofJson S raw).result = .handled t

theorem metrics_ofJson (S : Schema V) (raw : Json) :
    (ofJson S raw).metrics = (uncounted S raw).metrics ++ (ofJson S raw).result.metrics := by
  rw [ofJson, Reported.metrics_bind]
  congr 1
  exact List.append_nil _

theorem counts_append_metrics (values : List Metric) (o : Outcome V) :
    Counts values o (values ++ o.metrics) := by
  constructor
  all_goals
    rintro x rfl
    rfl

/-- **The values' metrics come first and one outcome is counted behind them**, by every way to
decode a held document. -/
theorem countedOnce (S : Schema V) (raw : Json) (h : raw.Stored) (attempts : List Attempt)
    (hmetrics : (uncounted S raw).metrics = S.metricsOf attempts) :
    CountedOnce S raw (S.metricsOf attempts) := by
  have hcounts : Counts (S.metricsOf attempts) (ofJson S raw).result (ofJson S raw).metrics := by
    rw [metrics_ofJson, hmetrics]
    exact counts_append_metrics _ _
  constructor
  case hook => exact hcounts
  case table =>
    rw [Table.ofJson, Reported.metrics_map]
    exact ⟨hcounts, fun t => Table.toExcept_ok_iff S _ t⟩
  case reader =>
    rw [Table.readJson_eq S raw h, Reported.metrics_map]
    exact ⟨hcounts, fun t => reportedBy_ok_iff S _ _ t⟩

/-! ### Tables as values -/

theorem mem_of_mem_upToFailure (S : Schema V) (js : List Json) (j : Json)
    (h : j ∈ S.upToFailure js) : j ∈ js := by
  induction js with
  | nil => exact h
  | cons i rest ih =>
    rw [Schema.upToFailure] at h
    split at h
    · exact List.mem_singleton.mp h ▸ List.mem_cons_self
    · rcases List.mem_cons.mp h with rfl | h
      · exact List.mem_cons_self
      · exact List.mem_cons_of_mem _ (ih h)

/-- The documents decoded on the way are held where the whole is. -/
theorem Tries.stored {S : Schema V} {raw : Json} {attempts : List Attempt}
    (htries : Tries S raw attempts) (h : raw.Stored) : ∀ a ∈ attempts, a.document.Stored := by
  intro a ha
  cases htries with
  | null => cases ha
  | declined =>
    rw [List.mem_singleton.mp ha]
    exact h
  | accepted =>
    have hraw : a.document = raw := by
      rcases List.mem_pair.mp ha with rfl | rfl <;> rfl
    exact hraw ▸ h
  | object fields js hentries =>
    obtain ⟨j, hj, rfl⟩ := List.mem_map.mp ha
    cases hentries with
    | refused => cases hj
    | values listing _ _ hlisting =>
      obtain ⟨e, he, rfl⟩ := List.mem_map.mp (mem_of_mem_upToFailure S _ j hj)
      obtain ⟨before, key, after, hsplit, -, -⟩ := (hlisting e.1 e.2).mp he
      have hmem : (key, e.2) ∈ entriesOf fields := hsplit ▸ by simp
      obtain ⟨f, hf, heq⟩ := List.mem_map.mp hmem
      show e.2.Stored
      rw [← congrArg Prod.snd heq]
      exact h.of_mem hf

theorem metricsOf_of_unmetered (S : Schema V) (h : S.Unmetered) (attempts : List Attempt) :
    S.metricsOf attempts = [] := List.flatMap_eq_nil_iff.mpr fun a _ => h a

/-- A table as a value reports its own outcome and nothing else, lent or given away. -/
theorem counts_run_table (name : String) (S : Schema V) (A : Arrangement (Table V))
    (h : S.Unmetered) (a : Attempt) (ha : a.document.Stored) :
    Counts [] (ofJson S a.document).result (a.run (Schema.table name S A)).metrics := by
  obtain ⟨attempts, -, hmetrics⟩ := metrics_uncounted S a.document
  have hreader := (countedOnce S a.document ha attempts hmetrics).reader.1
  rw [metricsOf_of_unmetered S h] at hreader
  have hrun : a.run (Schema.table name S A) =
      Table.readJson S a.document >>= fun t => pure (t.mapError .table) := by cases a <;> rfl
  rw [hrun, Reported.metrics_bind, Reported.metrics_pure, List.append_nil]
  exact hreader

/-- **Every decode is counted once, at each level**: behind what its values report, by whichever
way it is asked for, and where the values are tables they report one outcome for each document
that is decoded as one. Decoding entries counts nothing of its own. -/
theorem counted_once_at_each_level (S : Schema V) (raw : Json) (h : raw.Stored) :
    (∃ attempts, Tries S raw attempts ∧ CountedOnce S raw (S.metricsOf attempts)) ∧
      (∀ (A : Arrangement V) (entries : List (RawKey × Json)), ∃ js, Table.Tries S entries js ∧
        (Table.ofEntriesIn A S entries).metrics = S.metricsOf (js.map .decode)) ∧
      (S.Unmetered → ∀ name A, ∃ attempts inner, Tries (Schema.table name S A) raw attempts ∧
        List.Forall₂ (fun a metrics => Counts [] (ofJson S a.document).result metrics)
          attempts inner ∧
        CountedOnce (Schema.table name S A) raw inner.flatten) := by
  refine ⟨?_, fun A entries => ?_, fun hS name A => ?_⟩
  · obtain ⟨attempts, htries, hmetrics⟩ := metrics_uncounted S raw
    exact ⟨attempts, htries, countedOnce S raw h attempts hmetrics⟩
  · rw [Table.metrics_ofEntriesIn]
    exact Table.metrics_ofEntries S entries
  · obtain ⟨attempts, htries, hmetrics⟩ := metrics_uncounted (Schema.table name S A) raw
    refine ⟨attempts, attempts.map fun a => (a.run (Schema.table name S A)).metrics, htries, ?_, ?_⟩
    · rw [List.forall₂_map_right_iff, List.forall₂_same]
      exact fun a ha => counts_run_table name S A hS a (htries.stored h a ha)
    · exact countedOnce _ raw h attempts hmetrics

/-- Tables in a table: the least text that holds none ends the decode, and is counted before
the decode itself. -/
theorem nested_tables_counted :
    (Json.object [("10.0.0.0/8", .object [("::/0", .text "a"), ("fe80::/10", .text "b")]),
        ("::/0", .text "any"), ("f000::/4", .whole 7), ("fe00::/7", .null)]).Stored ∧
      (Schema.text "text").Unmetered ∧
      (∃ attempts inner, Tries (Schema.table "table" (Schema.text "text"))
          (.object [("10.0.0.0/8", .object [("::/0", .text "a"), ("fe80::/10", .text "b")]),
            ("::/0", .text "any"), ("f000::/4", .whole 7), ("fe00::/7", .null)]) attempts ∧
        List.Forall₂
          (fun a metrics => Counts [] (ofJson (Schema.text "text") a.document).result metrics)
          attempts inner ∧
        CountedOnce (Schema.table "table" (Schema.text "text"))
          (.object [("10.0.0.0/8", .object [("::/0", .text "a"), ("fe80::/10", .text "b")]),
            ("::/0", .text "any"), ("f000::/4", .whole 7), ("fe00::/7", .null)]) inner.flatten) ∧
      (ofJson (Schema.table "table" (Schema.text "text"))
          (.object [("10.0.0.0/8", .object [("::/0", .text "a"), ("fe80::/10", .text "b")]),
            ("::/0", .text "any"), ("f000::/4", .whole 7), ("fe00::/7", .null)])).metrics =
        [⟨"subnetmap_decodes_total", 1⟩, ⟨"subnetmap_entries", 1⟩,
          ⟨"subnetmap_decodes_total", 1⟩, ⟨"subnetmap_entries", 2⟩,
          ⟨"subnetmap_declined_total", 1⟩, ⟨"subnetmap_decode_failures_total", 1⟩] :=
  have hunmetered : (Schema.text "text").Unmetered := fun a => by cases a <;> rfl
  ⟨⟨rfl, rfl⟩, hunmetered,
    (counted_once_at_each_level (Schema.text "text") _ ⟨rfl, rfl⟩).2.2 hunmetered "table" .byKey, rfl⟩

/-- A bare text that is found to be a value but refused when it is given away is a failure. -/
example : (ofJson { Schema.text "text" with decode := fun _ => pure (.error .notOneField) }
    (.text "a")).metrics = [⟨"subnetmap_decode_failures_total", 1⟩] := rfl

end Outcome

end CidrTable
