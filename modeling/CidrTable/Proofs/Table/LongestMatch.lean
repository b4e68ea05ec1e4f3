import CidrTable.Proofs.Table.Represents
import CidrTable.Schema.Scalar

/-! The longest match, from the entries to the answer.

For an address the keys that count are those whose prefix is around it (`Covers`), and of
the entries under one prefix the last one counts (`LastUnder`). A decoded table answers
with the longest of those prefixes and the value its last entry decodes to
(`ofEntries_longest_match`). -/
namespace CidrTable.Table

variable {V : Type}

/-- A key denotes this prefix, and the prefix is around the address. -/
def Covers (entries : List (RawKey × Json)) (a : Address) (p : Prefix) : Prop :=
  (∃ e ∈ entries, e.1.prefix? = some p) ∧ p.containsAddress a = true

/-- The last of the entries whose keys denote the prefix holds this document. -/
def LastUnder (entries : List (RawKey × Json)) (p : Prefix) (raw : Json) : Prop :=
  ∃ before key after, entries = before ++ (key, raw) :: after ∧ key.prefix? = some p ∧
    ∀ e ∈ after, e.1.prefix? ≠ some p

/-- What a table of these entries answers for an address. -/
structure AnswersLongest (S : Schema V) (entries : List (RawKey × Json)) (t : Table V) (a : Address) :
    Prop where
  miss : (∀ p, ¬ Covers entries a p) →
    t.lookupMatch a = none ∧ t.lookup a = none ∧ ∀ fallback, t.lookupOr fallback a = (fallback, false)
  hit : (∃ p, Covers entries a p) →
    ∃ p raw v, Covers entries a p ∧ (∀ q, Covers entries a q → q ≠ p → q.len < p.len) ∧
      LastUnder entries p raw ∧ (S.decode raw).result = .ok v ∧
      t.lookupMatch a = some (p, v) ∧ t.lookup a = some v ∧
      ∀ fallback, t.lookupOr fallback a = (v, true)

/-! ### Entries as writes -/

theorem lastUnder_iff (entries : List (RawKey × Json)) (p : Prefix) (raw : Json) :
    LastUnder entries p raw ↔ lastWrite (denotations entries) (some p) = some raw := by
  rw [lastWrite_eq_some_iff]
  constructor
  · intro h
    obtain ⟨before, key, after, rfl, hkey, hafter⟩ := h
    refine ⟨denotations before, denotations after, ?_, fun e he => ?_⟩
    · rw [denotations, List.map_append, List.map_cons, hkey]
      rfl
    · obtain ⟨f, hf, rfl⟩ := List.mem_map.mp he
      exact hafter f hf
  · intro h
    obtain ⟨before', after', hsplit, hafter⟩ := h
    obtain ⟨before, rest, rfl, rfl, hrest⟩ := List.map_eq_append_iff.mp hsplit
    obtain ⟨e, after, rfl, he, rfl⟩ := List.map_eq_cons_iff.mp hrest
    obtain ⟨hkey, rfl⟩ := Prod.mk.inj he
    refine ⟨before, e.1, after, rfl, hkey, fun f hf => ?_⟩
    exact hafter (f.1.prefix?, f.2) (List.mem_map.mpr ⟨f, hf, rfl⟩)

theorem exists_key_iff (entries : List (RawKey × Json)) (p : Prefix) :
    (∃ e ∈ entries, e.1.prefix? = some p) ↔ lastWrite (denotations entries) (some p) ≠ none := by
  rw [Ne, lastWrite_eq_none_iff]
  constructor
  · rintro ⟨e, he, hkey⟩ hnone
    exact hnone (e.1.prefix?, e.2) (List.mem_map.mpr ⟨e, he, rfl⟩) hkey
  · intro hsome
    by_contra hnone
    refine hsome fun f hf hkey => ?_
    obtain ⟨e, he, rfl⟩ := List.mem_map.mp hf
    exact hnone ⟨e, he, hkey⟩

theorem decodedMap_ne_none_iff (S : Schema V) (entries : List (RawKey × Json)) (t : Table V)
    (h : (ofEntries S entries).result = .ok t) (p : Prefix) :
    decodedMap S entries p ≠ none ↔ ∃ e ∈ entries, e.1.prefix? = some p := by
  rw [exists_key_iff, decodedMap]
  cases hlast : lastWrite (denotations entries) (some p) with
  | none => simp
  | some raw =>
    obtain ⟨v, hv⟩ := exists_value_of_ofEntries S entries t h p raw hlast
    simp [hv, Except.toOption]

/-! ### Answers -/

theorem lookup_of_hit (t : Table V) (a : Address) (p : Prefix) (v : V)
    (h : t.lookupMatch a = some (p, v)) :
    t.lookup a = some v ∧ ∀ fallback, t.lookupOr fallback a = (v, true) := by
  have hlookup : t.lookup a = some v := by rw [lookup, h, Option.map_some]
  exact ⟨hlookup, fun fallback => by rw [lookupOr, hlookup]⟩

theorem lookup_of_miss (t : Table V) (a : Address) (h : t.lookupMatch a = none) :
    t.lookup a = none ∧ ∀ fallback, t.lookupOr fallback a = (fallback, false) := by
  have hlookup : t.lookup a = none := by rw [lookup, h, Option.map_none]
  exact ⟨hlookup, fun fallback => by rw [lookupOr, hlookup]⟩

/-- A table answers the same for an IPv4 address and for its place in the 128-bit space. -/
theorem lookupMatch_mapped (t : Table V) (b : BitVec 32) :
    t.lookupMatch (.v6 (Address.mapped b)) = t.lookupMatch (.v4 b) := rfl

/-- A table answers with the longest prefix around the address. -/
theorem answersLongest (S : Schema V) (entries : List (RawKey × Json)) (t : Table V)
    (h : (ofEntries S entries).result = .ok t) (a : Address) : AnswersLongest S entries t a := by
  have hrep := represents_ofEntries S entries t h
  have hcovers : ∀ p, Covers entries a p ↔
      decodedMap S entries p ≠ none ∧ p.containsAddress a = true := fun p =>
    and_congr_left' (decodedMap_ne_none_iff S entries t h p).symm
  constructor
  case miss =>
    intro hnone
    have hmiss : t.lookupMatch a = none := by
      refine (hrep.lookupMatch_eq_none_iff a).mpr fun p hp => ?_
      exact Bool.eq_false_iff.mpr fun ha => hnone p ((hcovers p).mpr ⟨hp, ha⟩)
    exact ⟨hmiss, lookup_of_miss t a hmiss⟩
  case hit =>
    intro hsome
    obtain ⟨q, hq⟩ := hsome
    cases hmatch : t.lookupMatch a with
    | none =>
      obtain ⟨hstored, ha⟩ := (hcovers q).mp hq
      have hfalse := (hrep.lookupMatch_eq_none_iff a).mp hmatch q hstored
      rw [ha] at hfalse
      cases hfalse
    | some e =>
      obtain ⟨p, v⟩ := e
      obtain ⟨hp, ha, hlongest⟩ := (hrep.lookupMatch_eq_some_iff a p v).mp hmatch
      obtain ⟨raw, hlast, hraw⟩ := Option.bind_eq_some_iff.mp hp
      refine ⟨p, raw, v, (hcovers p).mpr ⟨by rw [hp]; simp, ha⟩, fun r hr hne => ?_,
        (lastUnder_iff entries p raw).mpr hlast, (toOption_eq_some_iff _ v).mp hraw, rfl,
        lookup_of_hit t a p v hmatch⟩
      obtain ⟨hstored, hra⟩ := (hcovers r).mp hr
      -- Of two prefixes around one address the lengths tell them apart.
      refine Nat.lt_of_le_of_ne (hlongest r hstored hra) fun hlen => ?_
      exact hne (Prefix.eq_of_contains_of_len hra ha hlen)

/-- **A decoded table answers every address with its longest match**, and an IPv4 address as
it answers its spelling in the 128-bit space. -/
theorem ofEntries_longest_match (S : Schema V) (entries : List (RawKey × Json)) (t : Table V)
    (h : (ofEntries S entries).result = .ok t) :
    (∀ a, AnswersLongest S entries t a) ∧
      ∀ b, Address.read? ("::ffff:".toList ++ Address.writeV4 b) = some (.v6 (Address.mapped b)) ∧
        t.lookupMatch (.v6 (Address.mapped b)) = t.lookupMatch (.v4 b) ∧
        t.lookup (.v6 (Address.mapped b)) = t.lookup (.v4 b) ∧
        ∀ fallback, t.lookupOr fallback (.v6 (Address.mapped b)) = t.lookupOr fallback (.v4 b) := by
  refine ⟨answersLongest S entries t h, fun b =>
    ⟨Address.read?_mapped b, lookupMatch_mapped t b, ?_, fun fallback => ?_⟩⟩
  · rw [lookup, lookup, lookupMatch_mapped]
  · rw [lookupOr, lookupOr, lookup, lookup, lookupMatch_mapped]

/-- Entries of both families, nested, with one prefix under two keys. -/
theorem nested_entries_longest_match :
    AnswersLongest (Schema.text "text")
        [(.text "10.0.0.0/8", .text "outer"), (.text "10.1.0.0/255.255.0.0", .text "first"),
          (.text "::/0", .text "any"), (.text "::ffff:10.1.0.0/112", .text "last")]
        (ofTrie (.ofList [(.any, "any"), (.cut (Address.mapped 0x0A000000) 104 (by decide), "outer"),
          (.cut (Address.mapped 0x0A010000) 112 (by decide), "last")]))
        (.v4 0x0A010203) ∧
      (ofTrie (.ofList [(.any, "any"), (.cut (Address.mapped 0x0A000000) 104 (by decide), "outer"),
          (.cut (Address.mapped 0x0A010000) 112 (by decide), "last")])).lookup (.v4 0x0A010203)
        = some "last" :=
  ⟨(ofEntries_longest_match _ _ _ rfl).1 _, rfl⟩

end CidrTable.Table
