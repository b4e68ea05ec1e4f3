import CidrTable.Proofs.Table.Broken
import CidrTable.Proofs.Table.Verdict

/-! Kinds of keys.

A map's keys come in every kind that data has. Text is a key as it stands, and every other kind is
to be reported as a key that is no text, by its place, when its turn comes. That is what happens
as long as all the keys are of a kind that is read (`Datum.isKeyKind`). An integer of 128 bits and
an absent value are not: such a key ends the reading of the whole map, with no place given and in
front of every earlier key that is refused (`follows_iff_keys_read`). -/
namespace CidrTable

variable {V ε : Type}

namespace Datum

def isTextual : Datum ε → Bool
  | char _ => true
  | text _ => true
  | _ => false

def isKeyKind : Datum ε → Bool
  | wideInt _ => false
  | wideUint _ => false
  | none => false
  | some _ => false
  | wrapped _ => false
  | variant _ => false
  | broken _ => false
  | _ => true

/-- The key that a piece is: its text, or else one that is no text. -/
inductive IsKey : Datum ε → RawKey → Prop where
  | char (c : Char) : IsKey (.char c) (.text (String.singleton c))
  | text (s : String) : IsKey (.text s) (.text s)
  | other (d : Datum ε) (kind : String) : d.isTextual = false → IsKey d (.other kind)

/-- The reader presents the key without failing in it. -/
def Arrives : Datum ε → Prop
  | seq items => skipItems items = .ok ()
  | map entries => skipEntries entries = .ok ()
  | broken _ => False
  | _ => True

/-- The key is text that denotes a prefix. -/
def Denotes (key : Datum ε) : Prop := ∃ s k, key.IsKey (.text s) ∧ Subnet.Key.ofString s = .ok k

/-- The reader presents a map's entries to the end: its keys, and values that read as documents. -/
def AllArrive (entries : List (Datum ε × Datum ε)) : Prop :=
  ∀ e ∈ entries, e.1.Arrives ∧ ∃ j, e.2.toJson = .ok j

/-- An entry as it is to be decoded. -/
def IsEntry (entry : Datum ε × Datum ε) (raw : RawKey × Json) : Prop :=
  entry.1.IsKey raw.1 ∧ entry.2.toJson = .ok raw.2

/-! ### Reading keys -/

theorem exists_toKey (key : Datum ε) (h : key.Arrives) (hkind : key.isKeyKind = true) :
    ∃ k, key.toKey = .ok k ∧ key.IsKey k := by
  cases key with
  | char c => exact ⟨_, rfl, .char c⟩
  | text s => exact ⟨_, rfl, .text s⟩
  | seq items =>
    have hskip : skipItems items = .ok () := h
    refine ⟨.other "sequence", ?_, .other _ _ rfl⟩
    rw [toKey, hskip]
    rfl
  | map entries =>
    have hskip : skipEntries entries = .ok () := h
    refine ⟨.other "map", ?_, .other _ _ rfl⟩
    rw [toKey, hskip]
    rfl
  | bool | int | uint | float | bytes | unit => exact ⟨_, rfl, .other _ _ rfl⟩
  | wideInt | wideUint | none | some | wrapped | variant | broken => cases hkind

theorem toKey_of_not_isKeyKind (key : Datum ε) (h : key.Arrives) (hkind : key.isKeyKind = false) :
    key.toKey = .error (.unexpected key.describe "a map key") := by
  cases key with
  | wideInt | wideUint | none | some | wrapped | variant => rfl
  | broken => exact h.elim
  | _ => cases hkind

theorem IsKey.eq_text {key : Datum ε} {s : String} {k : RawKey} (h : key.IsKey (.text s))
    (hk : key.IsKey k) : k = .text s := by
  cases h <;> cases hk <;> first | rfl | contradiction

theorem IsKey.exists_other {key : Datum ε} {k : RawKey} (h : key.IsKey k)
    (hkey : key.isTextual = false) : ∃ kind, k = .other kind := by
  cases h with
  | char | text => cases hkey
  | other d kind => exact ⟨kind, rfl⟩

theorem Denotes.prefix?_ne_none {key : Datum ε} {k : RawKey} (h : key.Denotes) (hk : key.IsKey k) :
    k.prefix? ≠ Option.none := by
  obtain ⟨s, parsed, hs, hparsed⟩ := h
  rw [hs.eq_text hk, RawKey.prefix?, Prefix.ofString, hparsed]
  exact Option.some_ne_none _

/-! ### Reading entries -/

/-- Entries whose keys are of kinds that are read are read as they are to be decoded. -/
theorem exists_toEntries (entries : List (Datum ε × Datum ε)) (h : AllArrive entries)
    (hkinds : ∀ e ∈ entries, e.1.isKeyKind = true) :
    ∃ raws, toEntries entries = .ok raws ∧ List.Forall₂ IsEntry entries raws := by
  induction entries with
  | nil => exact ⟨[], rfl, .nil⟩
  | cons e entries ih =>
    obtain ⟨hkey, j, hj⟩ := h e List.mem_cons_self
    obtain ⟨k, hk, hiskey⟩ := exists_toKey e.1 hkey (hkinds e List.mem_cons_self)
    obtain ⟨raws, hraws, hentries⟩ := ih (fun f hf => h f (List.mem_cons_of_mem _ hf))
      fun f hf => hkinds f (List.mem_cons_of_mem _ hf)
    refine ⟨(k, j) :: raws, ?_, .cons ⟨hiskey, hj⟩ hentries⟩
    rw [toEntries, hk, hj, hraws]
    rfl

/-- The first key of a kind that is not read ends the reading of a map. -/
theorem fails_of_not_isKeyKind (before : List (Datum ε × Datum ε)) (key d : Datum ε)
    (after : List (Datum ε × Datum ε)) (h : AllArrive (before ++ (key, d) :: after))
    (hbefore : ∀ b ∈ before, b.1.isKeyKind = true) (hkind : key.isKeyKind = false) :
    (map (before ++ (key, d) :: after)).Fails (.unexpected key.describe "a map key") := by
  obtain ⟨raws, hraws, -⟩ :=
    exists_toEntries before (fun b hb => h b (List.mem_append_left _ hb)) hbefore
  obtain ⟨hkey, -⟩ := h (key, d) (List.mem_append_right _ List.mem_cons_self)
  exact .key d after hraws (toKey_of_not_isKeyKind key hkey hkind)

/-- An entry in its place, as it is to be decoded. -/
theorem exists_split {before after : List (Datum ε × Datum ε)} {entry : Datum ε × Datum ε}
    {raws : List (RawKey × Json)} (h : List.Forall₂ IsEntry (before ++ entry :: after) raws)
    (hbefore : ∀ b ∈ before, b.1.Denotes) :
    ∃ front raw back, raws = front ++ raw :: back ∧ front.length = before.length ∧
      (∀ b ∈ front, b.1.prefix? ≠ Option.none) ∧ IsEntry entry raw := by
  induction before generalizing raws with
  | nil =>
    obtain _ | ⟨hentry, _⟩ := h
    exact ⟨[], _, _, rfl, rfl, List.forall_mem_nil _, hentry⟩
  | cons b before ih =>
    obtain _ | ⟨hb, hrest⟩ := h
    obtain ⟨front, raw, back, rfl, hlength, hfront, hentry⟩ :=
      ih hrest fun c hc => hbefore c (List.mem_cons_of_mem _ hc)
    refine ⟨_ :: front, raw, back, rfl, congrArg Nat.succ hlength, ?_, hentry⟩
    refine List.forall_mem_cons.mpr ⟨?_, hfront⟩
    exact (hbefore b List.mem_cons_self).prefix?_ne_none hb.1

end Datum

namespace Table

/-- What comes out of a map is what decoding its entries comes to, in the order of the map, text
keys as text and every other key as no text. -/
def FollowsEntries (S : Schema V) (entries : List (Datum ε × Datum ε)) : Prop :=
  ∃ raws, List.Forall₂ Datum.IsEntry entries raws ∧
    ofDatum S (.map entries) = Outcome.reportedBy S .decode <$> outcomeOf S (.entries raws)

theorem not_followsEntries (S : Schema V) {entries : List (Datum ε × Datum ε)} {e : ReadError ε}
    (h : (Datum.map entries).Fails e) : ¬ FollowsEntries S entries := by
  intro hfollows
  obtain ⟨raws, -, heq⟩ := hfollows
  have hresult := congrArg Reported.result heq
  rw [ofDatum_of_fails S h, Reported.result_map] at hresult
  exact reportedBy_ne_read S _ e hresult.symm

/-- Of entries whose keys are all of a kind that is read, the first bad key is reported. -/
theorem exists_key_reported (S : Schema V) (before : List (Datum ε × Datum ε)) (key d : Datum ε)
    (after : List (Datum ε × Datum ε)) (h : Datum.AllArrive (before ++ (key, d) :: after))
    (hkinds : ∀ e ∈ before ++ (key, d) :: after, e.1.isKeyKind = true)
    (hbefore : ∀ b ∈ before, b.1.Denotes) :
    ∃ k, key.IsKey k ∧ ∀ e, Refused before.length k e →
      (ofDatum S (.map (before ++ (key, d) :: after))).result = .error (.decode e) := by
  obtain ⟨raws, hread, hraws⟩ := Datum.exists_toEntries _ h hkinds
  obtain ⟨front, ⟨k, raw⟩, back, rfl, hlength, hfront, hentry⟩ := Datum.exists_split hraws hbefore
  refine ⟨k, hentry.1, fun e hrefused => ?_⟩
  rw [← hlength] at hrefused
  have hverdict : Verdict S (front ++ (k, raw) :: back) (.error e) :=
    .refused front k raw back e rfl hfront hrefused
  rw [ofDatum_of_ends S (.map hread), Reported.result_map]
  show (Outcome.ofExcept (ofEntries S _).result).reportedBy S _ = _
  rw [hverdict.result_eq]
  rfl

/-- What becomes of the keys of a map. -/
structure KeysReported (S : Schema V) (entries : List (Datum ε × Datum ε)) : Prop where
  /-- The entries are decoded one after another exactly if all the keys are of a kind that is
  read. -/
  follows : FollowsEntries S entries ↔ ∀ e ∈ entries, e.1.isKeyKind = true
  /-- The first key of another kind is an error without a place, whatever the earlier keys are. -/
  strays : ∀ before key d after, entries = before ++ (key, d) :: after →
    (∀ b ∈ before, b.1.isKeyKind = true) → key.isKeyKind = false →
    ofDatum S (.map entries) = ⟨.error (.read (.unexpected key.describe "a map key")), [], []⟩
  /-- If the first bad key is no text, it is reported by its place. -/
  nontextual : (∀ e ∈ entries, e.1.isKeyKind = true) → ∀ before key d after,
    entries = before ++ (key, d) :: after → (∀ b ∈ before, b.1.Denotes) → key.isTextual = false →
    ∃ kind, (ofDatum S (.map entries)).result = .error (.decode (.keyKind before.length kind))
  /-- If it is malformed text, that is reported, whatever the kinds of the keys behind it. -/
  malformed : (∀ e ∈ entries, e.1.isKeyKind = true) → ∀ before key d after s cause,
    entries = before ++ (key, d) :: after → (∀ b ∈ before, b.1.Denotes) → key.IsKey (.text s) →
    Subnet.Key.ofString s = .error cause →
    (ofDatum S (.map entries)).result = .error (.decode (.subnet before.length s cause))

/-- **Keys are reported in their turn exactly if all of them are of a kind that is read**: for
every reader, every map that it presents to the end and every schema. -/
theorem follows_iff_keys_read (S : Schema V) (entries : List (Datum ε × Datum ε))
    (h : Datum.AllArrive entries) : KeysReported S entries := by
  constructor
  case follows =>
    constructor
    · intro hfollows
      rcases forall_or_first (fun e : Datum ε × Datum ε => e.1.isKeyKind = true) entries with
        hkinds | ⟨before, ⟨key, d⟩, after, rfl, hbefore, hkind⟩
      · exact hkinds
      · have hfails := Datum.fails_of_not_isKeyKind before key d after h hbefore
          (Bool.eq_false_of_not_eq_true hkind)
        exact absurd hfollows (not_followsEntries S hfails)
    · intro hkinds
      obtain ⟨raws, hread, hraws⟩ := Datum.exists_toEntries entries h hkinds
      exact ⟨raws, hraws, ofDatum_of_ends S (.map hread)⟩
  case strays =>
    rintro before key d after rfl hbefore hkind
    have hfails := Datum.fails_of_not_isKeyKind before key d after h hbefore hkind
    exact ofDatum_of_fails S hfails
  case nontextual =>
    rintro hkinds before key d after rfl hbefore hkey
    obtain ⟨k, hk, hreport⟩ := exists_key_reported S before key d after h hkinds hbefore
    obtain ⟨kind, rfl⟩ := hk.exists_other hkey
    exact ⟨kind, hreport _ (.kind kind)⟩
  case malformed =>
    rintro hkinds before key d after s cause rfl hbefore hkey hs
    obtain ⟨k, hk, hreport⟩ := exists_key_reported S before key d after h hkinds hbefore
    obtain rfl : k = .text s := hkey.eq_text hk
    exact hreport _ (.text s cause hs)

/-- A list for a key, between a good key and a malformed one. -/
theorem list_key_reported :
    let entries : List (Datum Empty × Datum Empty) := [(.text "10.0.0.0/8", .uint 1),
      (.seq [.none, .seq []], .uint 2), (.text "nonsense", .uint 3)]
    Datum.AllArrive entries ∧ KeysReported (Schema.uint32 "count") entries := by
  intro entries
  have harrive : Datum.AllArrive entries := by
    intro e he
    simp only [entries, List.mem_cons, List.not_mem_nil, or_false] at he
    rcases he with rfl | rfl | rfl <;> exact ⟨by trivial, _, rfl⟩
  exact ⟨harrive, follows_iff_keys_read _ entries harrive⟩

/-- A malformed key is not reported in front of an integer of 128 bits, though decoding the
entries one after another would report it. -/
theorem wide_key_strays :
    let entries : List (Datum Empty × Datum Empty) :=
      [(.text "nonsense", .uint 1), (.wideInt 5, .uint 2)]
    Datum.AllArrive entries ∧ ¬ FollowsEntries (Schema.uint32 "u32") entries ∧
      (ofDatum (Schema.uint32 "u32") (.map entries)).result =
        .error (.read (.unexpected "integer `5` as i128" "a map key")) ∧
      (ofEntries (Schema.uint32 "u32")
        [(.text "nonsense", .whole 1), (.other "int", .whole 2)]).result =
        .error (.subnet 0 "nonsense" .missingSeparator) := by
  intro entries
  have harrive : Datum.AllArrive entries := by
    intro e he
    simp only [entries, List.mem_cons, List.not_mem_nil, or_false] at he
    rcases he with rfl | rfl <;> exact ⟨trivial, _, rfl⟩
  have hbefore : ∀ b ∈ [((.text "nonsense", .uint 1) : Datum Empty × Datum Empty)],
      b.1.isKeyKind = true := List.forall_mem_singleton.mpr rfl
  have hfails := Datum.fails_of_not_isKeyKind _ (.wideInt 5) (.uint 2) [] harrive hbefore rfl
  exact ⟨harrive, not_followsEntries _ hfails, rfl, rfl⟩

end Table

end CidrTable
