import CidrTable.Proofs.Order
import CidrTable.Proofs.Subnet.Mapped
import Mathlib.Order.Defs.Unbundled

/-! Prefixes are intervals of addresses.

The addresses inside a prefix are those from its network to its last one, as numbers
(`containsAddress_iff`): an address outside differs from the network in a leading bit, and the
first such bit puts it in front of every address inside or behind them all
(`outside_of_not_containsAddress`). A prefix lies inside another exactly if its addresses do
(`contains_iff_forall`), so two prefixes with an address in common are nested
(`exists_shared_iff`) and a prefix is what it covers (`eq_iff_forall`).

`Made` lists the ways to come by a prefix, each with the word and the length it writes down, and
`laminar_intervals` puts everything together: the order of prefixes is a linear one that extends
containment. -/
namespace CidrTable.Prefix

/-! ### The ends of a prefix -/

theorem getMsbD_last_of_lt (p : Prefix) (i : Nat) (h : i < p.len) : p.last.getMsbD i = p.bit i := by
  have hi : i < 128 := Nat.lt_of_lt_of_le h p.len_le
  rw [last, BitVec.getMsbD_or, BitVec.getMsbD_not, Word.getMsbD_mask, decide_eq_true h,
    decide_eq_true hi]
  exact Bool.or_false _

theorem getMsbD_last_of_le (p : Prefix) (i : Nat) (h : p.len ≤ i) (hi : i < 128) :
    p.last.getMsbD i = true := by
  rw [last, BitVec.getMsbD_or, BitVec.getMsbD_not, Word.getMsbD_mask,
    decide_eq_false (Nat.not_lt.mpr h), decide_eq_true hi]
  exact Bool.or_true _

/-! ### Addresses -/

theorem containsAddress_iff_bit (p : Prefix) (a : Address) :
    p.containsAddress a = true ↔ ∀ i, i < p.len → p.bit i = a.word.getMsbD i := by
  rw [containsAddress, contains_iff, and_iff_right (show p.len ≤ a.toPrefix.len from p.len_le)]
  simp only [bit, Address.toPrefix, bits_host]

theorem containsAddress_network (p : Prefix) : p.containsAddress (.v6 p.network) = true :=
  (containsAddress_iff_bit p _).mpr fun _ _ => rfl

theorem containsAddress_last (p : Prefix) : p.containsAddress (.v6 p.last) = true :=
  (containsAddress_iff_bit p _).mpr fun i hi => (getMsbD_last_of_lt p i hi).symm

theorem network_le_of_containsAddress {p : Prefix} {a : Address} (h : p.containsAddress a = true) :
    p.network ≤ a.word := by
  have hbits := toNat_bits_le_of_contains h
  rw [Address.toPrefix, bits_host] at hbits
  exact BitVec.le_def.mpr hbits

/-- Nothing inside a prefix is behind its last address, which has every bit that it could have. -/
theorem le_last_of_containsAddress {p : Prefix} {a : Address} (h : p.containsAddress a = true) :
    a.word ≤ p.last := by
  have hset : a.word &&& p.last = a.word := by
    refine BitVec.eq_of_getMsbD_eq fun i hi => ?_
    rw [BitVec.getMsbD_and]
    rcases Nat.lt_or_ge i p.len with hlt | hge
    · rw [getMsbD_last_of_lt p i hlt, (containsAddress_iff_bit p a).mp h i hlt, Bool.and_self]
    · rw [getMsbD_last_of_le p i hge hi, Bool.and_true]
  rw [BitVec.le_def, ← hset, BitVec.toNat_and]
  exact Nat.and_le_right

/-- An address outside is in front of the network or behind the last address: the first bit that
differs says which. -/
theorem outside_of_not_containsAddress {p : Prefix} {a : Address}
    (h : ¬ p.containsAddress a = true) : a.word < p.network ∨ p.last < a.word := by
  have hle := Word.commonLength_le p.bits a.word p.len
  have hshared := Word.getMsbD_eq_of_lt_commonLength p.bits a.word p.len
  have hnext := Word.getMsbD_commonLength_ne p.bits a.word p.len
  generalize Word.commonLength p.bits a.word p.len = n at hle hshared hnext
  have hn : n < p.len := by
    refine Nat.lt_of_le_of_ne hle fun heq => h ?_
    exact (containsAddress_iff_bit p a).mpr fun i hi => hshared i (heq ▸ hi)
  have hne : p.bit n ≠ a.word.getMsbD n := hnext hn
  cases hbit : p.bit n with
  | false =>
    refine .inr (Word.toNat_lt_of_getMsbD n (fun i hi => ?_) ?_ ?_)
    · rw [getMsbD_last_of_lt p i (Nat.lt_trans hi hn)]
      exact hshared i hi
    · rw [getMsbD_last_of_lt p n hn, hbit]
    · simpa [hbit] using hne.symm
  | true =>
    refine .inl (Word.toNat_lt_of_getMsbD n (fun i hi => (hshared i hi).symm) ?_ hbit)
    simpa [hbit] using hne.symm

theorem containsAddress_iff (p : Prefix) (a : Address) :
    p.containsAddress a = true ↔ p.network ≤ a.word ∧ a.word ≤ p.last := by
  constructor
  · exact fun h => ⟨network_le_of_containsAddress h, le_last_of_containsAddress h⟩
  · rintro ⟨hfirst, hlast⟩
    by_contra h
    rcases outside_of_not_containsAddress h with hlt | hlt
    · exact BitVec.not_lt.mpr hfirst hlt
    · exact BitVec.not_lt.mpr hlast hlt

/-! ### Nesting as inclusion -/

/-- A prefix contains another exactly if it covers every address of the other. -/
theorem contains_iff_forall (p q : Prefix) :
    p.contains q = true ↔ ∀ a, q.containsAddress a = true → p.containsAddress a = true := by
  constructor
  · exact fun h a ha => contains_trans h ha
  · intro h
    have hnetwork := (containsAddress_iff_bit p _).mp (h _ (containsAddress_network q))
    have hlast := (containsAddress_iff_bit p _).mp (h _ (containsAddress_last q))
    refine (contains_iff p q).mpr ⟨Nat.le_of_not_lt fun hlt => ?_, hnetwork⟩
    -- Past the length of `q` its ends differ, and both begin like `p`.
    have hzero : p.bit q.len = false := (hnetwork q.len hlt).trans (bit_of_le q q.len (Nat.le_refl _))
    have hone : p.bit q.len = true :=
      (hlast q.len hlt).trans
        (getMsbD_last_of_le q q.len (Nat.le_refl _) (Nat.lt_of_lt_of_le hlt p.len_le))
    rw [hzero] at hone
    cases hone

/-- A prefix contains another exactly if it begins no later and ends no earlier. -/
theorem contains_iff_ends (p q : Prefix) :
    p.contains q = true ↔ p.network ≤ q.network ∧ q.last ≤ p.last := by
  constructor
  · intro h
    have hall := (contains_iff_forall p q).mp h
    exact ⟨network_le_of_containsAddress (hall _ (containsAddress_network q)),
      le_last_of_containsAddress (hall _ (containsAddress_last q))⟩
  · rintro ⟨hfirst, hlast⟩
    refine (contains_iff_forall p q).mpr fun a ha => (containsAddress_iff p a).mpr ?_
    obtain ⟨hqfirst, hqlast⟩ := (containsAddress_iff q a).mp ha
    exact ⟨BitVec.le_trans hfirst hqfirst, BitVec.le_trans hqlast hlast⟩

theorem contains_antisymm {p q : Prefix} (hpq : p.contains q = true) (hqp : q.contains p = true) :
    p = q := eq_of_contains hpq (len_le_of_contains hqp)

/-- A prefix is what it covers. -/
theorem eq_iff_forall (p q : Prefix) :
    p = q ↔ ∀ a, p.containsAddress a = true ↔ q.containsAddress a = true := by
  constructor
  · rintro rfl a
    exact Iff.rfl
  · exact fun h => contains_antisymm ((contains_iff_forall p q).mpr fun a => (h a).mpr)
      ((contains_iff_forall q p).mpr fun a => (h a).mp)

/-- Two prefixes have an address in common exactly if one contains the other. -/
theorem exists_shared_iff (p q : Prefix) :
    (∃ a, p.containsAddress a = true ∧ q.containsAddress a = true) ↔
      p.contains q = true ∨ q.contains p = true := by
  constructor
  · rintro ⟨a, hp, hq⟩
    rcases Nat.le_total p.len q.len with hlen | hlen
    · exact .inl (contains_of_contains hp hq hlen)
    · exact .inr (contains_of_contains hq hp hlen)
  · rintro (h | h)
    · exact ⟨_, (contains_iff_forall p q).mp h _ (containsAddress_network q), containsAddress_network q⟩
    · exact ⟨_, containsAddress_network p, (contains_iff_forall q p).mp h _ (containsAddress_network p)⟩

/-! ### The two orders -/

theorem isLE_compare_iff (p q : Prefix) :
    (p.compare q).isLE = true ↔
      p.bits.toNat < q.bits.toNat ∨ p.bits.toNat = q.bits.toNat ∧ p.len ≤ q.len := by
  rw [compare, Ordering.isLE_then_iff_or, Nat.compare_eq_lt, Nat.compare_eq_eq, Nat.isLE_compare]

theorem isPartialOrder_contains : IsPartialOrder Prefix fun p q => p.contains q = true where
  refl := contains_refl
  trans _ _ _ := contains_trans
  antisymm _ _ := contains_antisymm

theorem isLinearOrder_compare : IsLinearOrder Prefix fun p q => (p.compare q).isLE = true where
  refl p := (isLE_compare_iff p p).mpr (.inr ⟨rfl, Nat.le_refl _⟩)
  trans p q r := by
    rw [isLE_compare_iff, isLE_compare_iff, isLE_compare_iff]
    omega
  antisymm p q := by
    rw [isLE_compare_iff, isLE_compare_iff]
    intro hpq hqp
    exact eq_of_bits_of_len (BitVec.eq_of_toNat_eq (by omega)) (by omega)
  total p q := by
    rw [isLE_compare_iff, isLE_compare_iff]
    omega

/-- The order of prefixes extends containment. -/
theorem isLE_compare_of_contains {p q : Prefix} (h : p.contains q = true) :
    (p.compare q).isLE = true := by
  have hbits := toNat_bits_le_of_contains h
  have hlen := len_le_of_contains h
  rw [isLE_compare_iff]
  omega

/-! ### Making prefixes -/

/-- A way to come by a prefix, with the word and the length it writes down. Only a word of one's
own and a longer prefix are cut; the other words are taken as they are. -/
inductive Made : BitVec 128 → Nat → Prefix → Prop where
  | ofBits {x : BitVec 128} {n : Nat} {p : Prefix} : ofBits? x n = some p → Made (Word.keep x n) n p
  | address (a : Address) : Made a.word 128 a.toPrefix
  | any : Made 0 0 Prefix.any
  | subnet (s : Subnet) : Made s.network.word s.prefixLength s.toPrefix
  | key {text : String} {s : Subnet} {p : Prefix} : Subnet.ofString text = .ok s →
      Prefix.ofString text = .ok p → Made s.network.word s.prefixLength p
  | truncated (p : Prefix) (n : Nat) :
      Made (Word.keep p.bits (min n p.len)) (min n p.len) (p.truncate n)

/-- A prefix has the word and the length written down for it. -/
theorem Made.eq {x : BitVec 128} {n : Nat} {p : Prefix} (h : Made x n p) : p.bits = x ∧ p.len = n := by
  cases h with
  | ofBits h =>
    unfold ofBits? at h
    split at h
    case isTrue => exact (Option.some.inj h) ▸ ⟨rfl, rfl⟩
    case isFalse => cases h
  | address a => exact ⟨bits_host a.word, rfl⟩
  | any => exact ⟨rfl, rfl⟩
  | subnet s => exact ⟨s.bits_toPrefix, rfl⟩
  | key hs hp =>
    rename_i text s
    unfold Subnet.ofString at hs
    unfold Prefix.ofString at hp
    cases hkey : Subnet.Key.ofString text with
    | error e =>
      rw [hkey] at hs
      cases hs
    | ok k =>
      rw [hkey] at hs hp
      obtain rfl : k.subnet = s := Except.ok.inj hs
      obtain rfl : k.toPrefix = p := Except.ok.inj hp
      exact ⟨k.subnet.bits_toPrefix, rfl⟩
  | truncated p m => exact ⟨rfl, rfl⟩

/-- How two prefixes lie to each other, as sets of addresses and as intervals. -/
structure Laminar (p q : Prefix) : Prop where
  containsAddress_iff : ∀ a, p.containsAddress a = true ↔ p.network ≤ a.word ∧ a.word ≤ p.last
  contains_iff_forall :
    p.contains q = true ↔ ∀ a, q.containsAddress a = true → p.containsAddress a = true
  contains_iff_ends : p.contains q = true ↔ p.network ≤ q.network ∧ q.last ≤ p.last
  eq_iff_forall : p = q ↔ ∀ a, p.containsAddress a = true ↔ q.containsAddress a = true
  /-- Two prefixes are nested or have no address in common. -/
  exists_shared_iff : (∃ a, p.containsAddress a = true ∧ q.containsAddress a = true) ↔
    p.contains q = true ∨ q.contains p = true

/-- **Prefixes are laminar intervals**, however they are made: the word written down has no bit set
past its length, and the order of prefixes is a linear one that extends containment. -/
theorem laminar_intervals :
    (∀ x n p, Made x n p → p.bits = x ∧ p.len = n ∧ n ≤ 128 ∧ ∀ i, n ≤ i → x.getMsbD i = false) ∧
      (∀ p q : Prefix, Laminar p q) ∧
      IsPartialOrder Prefix (fun p q => p.contains q = true) ∧
      IsLinearOrder Prefix (fun p q => (p.compare q).isLE = true) ∧
      ∀ p q : Prefix, p.contains q = true → (p.compare q).isLE = true := by
  refine ⟨fun x n p h => ?_, fun p q => ?_, isPartialOrder_contains, isLinearOrder_compare,
    fun _ _ => isLE_compare_of_contains⟩
  · obtain ⟨rfl, rfl⟩ := h.eq
    exact ⟨rfl, rfl, p.len_le, bit_of_le p⟩
  · exact ⟨containsAddress_iff p, contains_iff_forall p q, contains_iff_ends p q,
      eq_iff_forall p q, exists_shared_iff p q⟩

/-- A subnet of the family that is mapped, inside the whole space. -/
theorem mapped_subnet_laminar :
    Made 0xffff0a000000 104 (Subnet.ofV4 0x0a010203 8 (by decide)).toPrefix ∧
      ((Subnet.ofV4 0x0a010203 8 (by decide)).toPrefix.bits = 0xffff0a000000 ∧
        (Subnet.ofV4 0x0a010203 8 (by decide)).toPrefix.len = 104 ∧ 104 ≤ 128 ∧
        ∀ i, 104 ≤ i → (0xffff0a000000 : BitVec 128).getMsbD i = false) ∧
      any.contains (Subnet.ofV4 0x0a010203 8 (by decide)).toPrefix = true ∧
      (any.compare (Subnet.ofV4 0x0a010203 8 (by decide)).toPrefix).isLE = true := by
  have hword : (Subnet.ofV4 0x0a010203 8 (by decide)).network.word = 0xffff0a000000 := by decide
  have hmade : Made 0xffff0a000000 104 (Subnet.ofV4 0x0a010203 8 (by decide)).toPrefix :=
    hword ▸ Made.subnet (Subnet.ofV4 0x0a010203 8 (by decide))
  have hany : any.contains (Subnet.ofV4 0x0a010203 8 (by decide)).toPrefix = true := by decide
  exact ⟨hmade, laminar_intervals.1 _ _ _ hmade, hany, laminar_intervals.2.2.2.2 _ _ hany⟩

end CidrTable.Prefix
