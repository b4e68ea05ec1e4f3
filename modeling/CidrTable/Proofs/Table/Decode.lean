import CidrTable.Proofs.Table.Arrangement
import Mathlib.Data.List.Forall2

/-! What decoding entries comes to.

Each phase has one statement of when it succeeds and with what: the keys all denote
prefixes (`collect_ok_iff`), the values all decode (`decodeValues_ok_iff`), and inserting
never fails. Together they say when a list of entries decodes, and to which table
(`ofEntries_ok_iff`). -/
namespace CidrTable

variable {V : Type}

theorem toOption_eq_some_iff {ε α : Type} (r : Except ε α) (x : α) :
    r.toOption = some x ↔ r = .ok x := by
  cases r with
  | error e => exact ⟨nofun, nofun⟩
  | ok y =>
    show some y = some x ↔ _
    rw [Option.some.injEq, Except.ok.injEq]

theorem mapError_eq_ok_iff {ε ε' α : Type} (f : ε → ε') (r : Except ε α) (x : α) :
    r.mapError f = .ok x ↔ r = .ok x := by
  cases r with
  | error e => exact ⟨nofun, nofun⟩
  | ok y => exact ⟨fun h => congrArg _ (Except.ok.inj h), fun h => congrArg _ (Except.ok.inj h)⟩

/-! ### Keys -/

def RawKey.prefix? : RawKey → Option Prefix
  | .text s => (Prefix.ofString s).toOption
  | .other _ => none

/-- The entries with each key replaced by the prefix it denotes. -/
def denotations (entries : List (RawKey × Json)) : List (Option Prefix × Json) :=
  entries.map fun e => (e.1.prefix?, e.2)

/-- Every key denotes a prefix, and these are the values under those prefixes, in order. -/
def Denote (entries : List (RawKey × Json)) (writes : List (Prefix × Json)) : Prop :=
  denotations entries = writes.map fun w => (some w.1, w.2)

theorem denote_cons_iff (key : RawKey) (j : Json) (rest : List (RawKey × Json))
    (writes : List (Prefix × Json)) :
    Denote ((key, j) :: rest) writes ↔
      ∃ p writes', key.prefix? = some p ∧ writes = (p, j) :: writes' ∧ Denote rest writes' := by
  constructor
  · intro h
    cases writes with
    | nil => cases h
    | cons w writes =>
      obtain ⟨hhead, htail⟩ := List.cons.inj h
      obtain ⟨hkey, hj⟩ := Prod.mk.inj hhead
      exact ⟨w.1, writes, hkey, congrArg (· :: writes) (Prod.ext rfl hj.symm), htail⟩
  · intro h
    obtain ⟨p, writes', hkey, rfl, hrest⟩ := h
    exact congrArg₂ List.cons (Prod.ext hkey rfl) hrest

theorem exists_denote (entries : List (RawKey × Json)) (h : ∀ e ∈ entries, e.1.prefix? ≠ none) :
    ∃ writes, Denote entries writes := by
  induction entries with
  | nil => exact ⟨[], rfl⟩
  | cons e rest ih =>
    obtain ⟨writes, hrest⟩ := ih fun f hf => h f (List.mem_cons_of_mem _ hf)
    obtain ⟨p, hp⟩ := Option.ne_none_iff_exists'.mp (h e List.mem_cons_self)
    exact ⟨(p, e.2) :: writes, (denote_cons_iff e.1 e.2 rest _).mpr ⟨p, writes, hp, rfl, hrest⟩⟩

theorem RawKey.prefix?_text (p : Prefix) : (RawKey.text p.text).prefix? = some p := by
  rw [RawKey.prefix?, Prefix.ofString_text]
  rfl

/-- The last value under a prefix, by the prefixes and by the keys. -/
theorem Denote.lastWrite_eq {entries : List (RawKey × Json)} {writes : List (Prefix × Json)}
    (h : Denote entries writes) (p : Prefix) :
    lastWrite (denotations entries) (some p) = lastWrite writes p := by
  have hmap := lastWrite_map some (fun _ _ heq => Option.some.inj heq) id writes p
  rw [Option.map_id] at hmap
  rw [h]
  exact hmap

namespace Table

/-- A key that is read has its place: no mask is of a width that no family has. -/
theorem normalize_of_read (index : Nat) (s : String) (k : Subnet.Key)
    (h : Subnet.Key.ofString s = .ok k) : normalize index k = .ok k.toPrefix := by
  obtain ⟨a, ha⟩ := Subnet.Key.maskBits_of_read s.toList k h
  have hwidth : k.maskBits = 32 ∨ k.maskBits = 128 := by
    rw [ha]
    cases a with
    | v4 bits => exact .inl rfl
    | v6 bits => exact .inr rfl
  exact if_pos hwidth

/-- A text that denotes a prefix is a good key, and stands under the prefix's canonical text. -/
theorem checkKey_text (index : Nat) (s : String) (p : Prefix)
    (h : (RawKey.text s).prefix? = some p) :
    checkKey index (.text s) = .ok (s, p.text) := by
  have hs : Prefix.ofString s = .ok p := (toOption_eq_some_iff _ p).mp h
  rw [Prefix.ofString] at hs
  cases hk : Subnet.Key.ofString s with
  | error cause =>
    rw [hk] at hs
    cases hs
  | ok k =>
    rw [hk] at hs
    obtain rfl : k.toPrefix = p := Except.ok.inj hs
    simp only [checkKey, hk, normalize_of_read index s k hk]
    rfl

theorem checkKey_of_some (index : Nat) (key : RawKey) (p : Prefix) (h : key.prefix? = some p) :
    ∃ written, checkKey index key = .ok (written, p.text) := by
  cases key with
  | other kind => cases h
  | text s => exact ⟨s, checkKey_text index s p h⟩

inductive Refused (index : Nat) : RawKey → DecodeError → Prop where
  | kind (kind : String) : Refused index (.other kind) (.keyKind index kind)
  | text (s : String) (cause : KeyError) : Subnet.Key.ofString s = .error cause →
      Refused index (.text s) (.subnet index s cause)

theorem exists_refused (index : Nat) (key : RawKey) (h : key.prefix? = none) :
    ∃ e, Refused index key e := by
  cases key with
  | other kind => exact ⟨_, .kind kind⟩
  | text s =>
    rw [RawKey.prefix?, Prefix.ofString] at h
    cases hk : Subnet.Key.ofString s with
    | error cause => exact ⟨_, .text s cause hk⟩
    | ok k =>
      rw [hk] at h
      cases h

theorem Refused.prefix?_eq_none {index : Nat} {key : RawKey} {e : DecodeError}
    (h : Refused index key e) : key.prefix? = none := by
  cases h with
  | kind => rfl
  | text s cause hs =>
    rw [RawKey.prefix?, Prefix.ofString, hs]
    rfl

theorem checkKey_of_refused (index : Nat) (key : RawKey) (e : DecodeError)
    (h : Refused index key e) : checkKey index key = .error e := by
  cases h with
  | kind => rfl
  | text s cause hs => simp only [checkKey, hs]

theorem collect_of_some (index : Nat) (done : Fields Json) (key : RawKey) (j : Json)
    (rest : List (RawKey × Json)) (p : Prefix) (h : key.prefix? = some p) :
    (collect index done ((key, j) :: rest)).result =
      (collect (index + 1) (done.put p.text j) rest).result := by
  obtain ⟨written, hkey⟩ := checkKey_of_some index key p h
  simp only [collect, hkey, Reported.result_bind]
  split <;> rfl

theorem collect_of_refused (index : Nat) (done : Fields Json) (key : RawKey) (j : Json)
    (rest : List (RawKey × Json)) (e : DecodeError) (h : Refused index key e) :
    (collect index done ((key, j) :: rest)).result = .error e := by
  simp only [collect, checkKey_of_refused index key e h, Reported.result_pure]

/-- **Keys are collected exactly if all denote prefixes.** -/
theorem collect_ok_iff (index : Nat) (done : Fields Json) (entries : List (RawKey × Json))
    (fields : Fields Json) :
    (collect index done entries).result = .ok fields ↔
      ∃ writes, Denote entries writes ∧
        fields = (underTexts writes).foldl (fun fields (key, j) => fields.put key j) done := by
  induction entries generalizing index done with
  | nil =>
    constructor
    · intro h
      exact ⟨[], rfl, (Except.ok.inj h).symm⟩
    · intro h
      obtain ⟨writes, hd, rfl⟩ := h
      rw [List.map_eq_nil_iff.mp hd.symm]
      rfl
  | cons e rest ih =>
    obtain ⟨key, j⟩ := e
    cases hkey : key.prefix? with
    | none =>
      obtain ⟨e, he⟩ := exists_refused index key hkey
      rw [collect_of_refused index done key j rest e he]
      refine ⟨nofun, fun h => ?_⟩
      obtain ⟨writes, hd, -⟩ := h
      obtain ⟨p, writes', hp, -, -⟩ := (denote_cons_iff key j rest writes).mp hd
      rw [hkey] at hp
      cases hp
    | some p =>
      rw [collect_of_some index done key j rest p hkey, ih]
      constructor
      · intro h
        obtain ⟨writes, hd, rfl⟩ := h
        exact ⟨(p, j) :: writes, (denote_cons_iff ..).mpr ⟨p, writes, hkey, rfl, hd⟩, rfl⟩
      · intro h
        obtain ⟨writes, hd, rfl⟩ := h
        obtain ⟨q, writes', hq, rfl, hrest⟩ := (denote_cons_iff key j rest writes).mp hd
        obtain rfl : q = p := Option.some.inj (hq.symm.trans hkey)
        exact ⟨writes', hrest, rfl⟩

/-! ### Values -/

/-- Under the same prefixes stand the documents and what they decode to. -/
def Decodes (S : Schema V) (raw : List (Prefix × Json)) (values : List (Prefix × V)) : Prop :=
  List.Forall₂ (fun r v => v.1 = r.1 ∧ (S.decode r.2).result = .ok v.2) raw values

theorem decodes_cons_iff (S : Schema V) (p : Prefix) (j : Json) (raw : List (Prefix × Json))
    (values : List (Prefix × V)) :
    Decodes S ((p, j) :: raw) values ↔
      ∃ v values', (S.decode j).result = .ok v ∧ values = (p, v) :: values' ∧ Decodes S raw values' := by
  constructor
  · intro h
    cases h with
    | @cons _ w _ values' hhead htail =>
      exact ⟨w.2, values', hhead.2, congrArg (· :: values') (Prod.ext hhead.1 rfl), htail⟩
  · intro h
    obtain ⟨v, values', hv, rfl, htail⟩ := h
    exact .cons ⟨rfl, hv⟩ htail

theorem decodeValues_of_ok (S : Schema V) (key : String) (j : Json) (rest : Fields Json) (v : V)
    (h : (S.decode j).result = .ok v) :
    (decodeValues S ((key, j) :: rest)).result =
      (decodeValues S rest).result.map ((key, v) :: ·) := by
  simp only [decodeValues, Reported.result_bind, h, Reported.result_pure]

theorem decodeValues_of_error (S : Schema V) (key : String) (j : Json) (rest : Fields Json)
    (e : ValueError) (h : (S.decode j).result = .error e) :
    (decodeValues S ((key, j) :: rest)).result = .error (.value S.name e.report) := by
  simp only [decodeValues, Reported.result_bind, h, Reported.result_pure]

/-- **Values decode exactly if each one does.** -/
theorem decodeValues_ok_iff (S : Schema V) (raw : List (Prefix × Json)) (fields : Fields V) :
    (decodeValues S (underTexts raw)).result = .ok fields ↔
      ∃ values, Decodes S raw values ∧ fields = underTexts values := by
  induction raw generalizing fields with
  | nil =>
    constructor
    · intro h
      exact ⟨[], .nil, (Except.ok.inj h).symm⟩
    · intro h
      obtain ⟨values, hd, rfl⟩ := h
      cases hd
      rfl
  | cons r raw ih =>
    obtain ⟨p, j⟩ := r
    rw [underTexts_cons]
    cases hj : (S.decode j).result with
    | error e =>
      rw [decodeValues_of_error S _ _ _ e hj]
      refine ⟨nofun, fun h => ?_⟩
      obtain ⟨values, hd, -⟩ := h
      obtain ⟨v, values', hv, -, -⟩ := (decodes_cons_iff S p j raw values).mp hd
      rw [hj] at hv
      cases hv
    | ok v =>
      rw [decodeValues_of_ok S _ _ _ v hj]
      constructor
      · intro h
        cases hrest : (decodeValues S (underTexts raw)).result with
        | error e =>
          rw [hrest] at h
          cases h
        | ok fields' =>
          obtain ⟨values, hd, rfl⟩ := (ih fields').mp hrest
          rw [hrest] at h
          refine ⟨(p, v) :: values, ?_, (Except.ok.inj h).symm⟩
          exact (decodes_cons_iff ..).mpr ⟨v, values, hj, rfl, hd⟩
      · intro h
        obtain ⟨values, hd, rfl⟩ := h
        obtain ⟨u, values', hu, rfl, htail⟩ := (decodes_cons_iff S p j raw values).mp hd
        obtain rfl : u = v := Except.ok.inj (hu.symm.trans hj)
        rw [(ih _).mpr ⟨values', htail, rfl⟩, underTexts_cons]
        rfl

theorem Decodes.keys_eq {S : Schema V} {raw : List (Prefix × Json)} {values : List (Prefix × V)}
    (h : Decodes S raw values) : values.map Prod.fst = raw.map Prod.fst := by
  induction h with
  | nil => rfl
  | cons hhead _ ih => rw [List.map_cons, List.map_cons, hhead.1, ih]

/-- What decodes is a value's document, and every document decodes to one. -/
theorem Decodes.mem_iff {S : Schema V} {raw : List (Prefix × Json)} {values : List (Prefix × V)}
    (h : Decodes S raw values) (p : Prefix) (v : V) :
    (p, v) ∈ values ↔ ∃ j, (p, j) ∈ raw ∧ (S.decode j).result = .ok v := by
  induction h with
  | nil => simp
  | @cons r w raw values hhead _ ih =>
    rw [List.mem_cons, ih]
    constructor
    · intro h
      rcases h with rfl | ⟨j, hj, hv⟩
      · exact ⟨r.2, by rw [show p = r.1 from hhead.1]; exact List.mem_cons_self, hhead.2⟩
      · exact ⟨j, List.mem_cons_of_mem _ hj, hv⟩
    · intro h
      obtain ⟨j, hj, hv⟩ := h
      rcases List.mem_cons.mp hj with rfl | hj
      · left
        have hvalue := hhead.2.symm.trans hv
        exact (Prod.ext hhead.1 (Except.ok.inj hvalue)).symm
      · exact .inr ⟨j, hj, hv⟩

theorem Decodes.exists_value {S : Schema V} {raw : List (Prefix × Json)} {values : List (Prefix × V)}
    (h : Decodes S raw values) (p : Prefix) (j : Json) (hj : (p, j) ∈ raw) :
    ∃ v, (S.decode j).result = .ok v := by
  induction h with
  | nil => cases hj
  | @cons r w _ _ hhead _ ih =>
    rcases List.mem_cons.mp hj with rfl | hj
    · exact ⟨w.2, hhead.2⟩
    · exact ih hj

theorem exists_decodes (S : Schema V) (raw : List (Prefix × Json))
    (h : ∀ e ∈ raw, ∃ v, (S.decode e.2).result = .ok v) : ∃ values, Decodes S raw values := by
  induction raw with
  | nil => exact ⟨[], .nil⟩
  | cons e raw ih =>
    obtain ⟨values, hrest⟩ := ih fun f hf => h f (List.mem_cons_of_mem _ hf)
    obtain ⟨v, hv⟩ := h e List.mem_cons_self
    exact ⟨(e.1, v) :: values, .cons ⟨rfl, hv⟩ hrest⟩

/-- The last value under a prefix is what the last document under it decodes to. -/
theorem Decodes.lastWrite_eq {S : Schema V} {raw : List (Prefix × Json)} {values : List (Prefix × V)}
    (h : Decodes S raw values) (p : Prefix) :
    lastWrite values p = (lastWrite raw p).bind fun j => (S.decode j).result.toOption := by
  induction h with
  | nil => rfl
  | @cons r w raw values hhead htail ih =>
    obtain ⟨hkey, hv⟩ := hhead
    rw [show w = (r.1, w.2) from Prod.ext hkey rfl, show r = (r.1, r.2) from rfl, lastWrite_cons,
      lastWrite_cons, ih]
    cases hlast : lastWrite raw p with
    | none =>
      by_cases hp : p = r.1
      · simp [hp, hv, Except.toOption]
      · simp [hp]
    | some j =>
      -- Every document decodes, so the later one has a value that hides the earlier.
      obtain ⟨v, hdecoded⟩ := Decodes.exists_value htail p j (mem_of_lastWrite hlast)
      simp [hdecoded, Except.toOption]

/-! ### Entries -/

/-- Decoded values stand under the texts of distinct prefixes. -/
theorem exists_values (S : Schema V) (entries : List (RawKey × Json)) (fields : Fields Json)
    (decoded : Fields V) (hc : (collect 0 [] entries).result = .ok fields)
    (hv : (decodeValues S fields).result = .ok decoded) :
    ∃ values, decoded = underTexts values ∧ (values.map Prod.fst).Nodup := by
  obtain ⟨writes, -, hfields⟩ := (collect_ok_iff 0 [] entries fields).mp hc
  obtain ⟨listing, hlisting⟩ := exists_listing writes
  obtain rfl : fields = underTexts listing := hfields.trans hlisting
  obtain ⟨values, hd, rfl⟩ := (decodeValues_ok_iff S listing decoded).mp hv
  exact ⟨values, rfl, hd.keys_eq ▸ nodup_of_listing hlisting⟩

/-- Entries whose keys are collected and whose values decode make a table. -/
theorem ofEntries_of_decodes (S : Schema V) (entries : List (RawKey × Json))
    (raw : List (Prefix × Json)) (values : List (Prefix × V))
    (hc : (collect 0 [] entries).result = .ok (underTexts raw)) (hd : Decodes S raw values) :
    (ofEntries S entries).result = .ok (ofTrie (Trie.ofList values)) := by
  have hv : (decodeValues S (underTexts raw)).result = .ok (underTexts values) :=
    (decodeValues_ok_iff S raw _).mpr ⟨values, hd, rfl⟩
  obtain ⟨writes, -, hfields⟩ := (collect_ok_iff 0 [] entries _).mp hc
  have hnodup : (values.map Prod.fst).Nodup := hd.keys_eq ▸ nodup_of_listing hfields.symm
  obtain ⟨stored, -, hi⟩ := insertAll_arranged S.order values hnodup
  simp only [ofEntries, ofEntriesIn, Reported.result_bind, hc, hv, hi, Reported.result_pure]

theorem ofEntries_of_collect_error (S : Schema V) (entries : List (RawKey × Json)) (e : DecodeError)
    (hc : (collect 0 [] entries).result = .error e) : (ofEntries S entries).result = .error e := by
  simp only [ofEntries, ofEntriesIn, Reported.result_bind, hc, Reported.result_pure]

theorem ofEntries_of_decode_error (S : Schema V) (entries : List (RawKey × Json))
    (fields : Fields Json) (e : DecodeError) (hc : (collect 0 [] entries).result = .ok fields)
    (hv : (decodeValues S fields).result = .error e) : (ofEntries S entries).result = .error e := by
  simp only [ofEntries, ofEntriesIn, Reported.result_bind, hc, hv, Reported.result_pure]

/-- **When entries decode and to which table**: the keys denote prefixes, the last value
under each prefix decodes, and the table holds what they decode to. -/
theorem ofEntries_ok_iff (S : Schema V) (entries : List (RawKey × Json)) (t : Table V) :
    (ofEntries S entries).result = .ok t ↔
      ∃ writes listing values, Denote entries writes ∧
        Fields.ofPairs (underTexts writes) = underTexts listing ∧ Decodes S listing values ∧
        t = ofTrie (Trie.ofList values) := by
  constructor
  · intro h
    cases hc : (collect 0 [] entries).result with
    | error e =>
      rw [ofEntries_of_collect_error S entries e hc] at h
      cases h
    | ok fields =>
      obtain ⟨writes, hdenote, hfields⟩ := (collect_ok_iff 0 [] entries fields).mp hc
      obtain ⟨listing, hlisting⟩ := exists_listing writes
      obtain rfl : fields = underTexts listing := hfields.trans hlisting
      cases hv : (decodeValues S (underTexts listing)).result with
      | error e =>
        rw [ofEntries_of_decode_error S entries _ e hc hv] at h
        cases h
      | ok fields' =>
        obtain ⟨values, hd, rfl⟩ := (decodeValues_ok_iff S listing fields').mp hv
        rw [ofEntries_of_decodes S entries listing values hc hd] at h
        exact ⟨writes, listing, values, hdenote, hlisting, hd, (Except.ok.inj h).symm⟩
  · intro h
    obtain ⟨writes, listing, values, hdenote, hlisting, hd, rfl⟩ := h
    refine ofEntries_of_decodes S entries listing values ?_ hd
    exact (collect_ok_iff 0 [] entries _).mpr ⟨writes, hdenote, hlisting.symm⟩

end Table

end CidrTable
