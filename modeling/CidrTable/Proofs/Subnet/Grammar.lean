import CidrTable.Proofs.Address.Family
import CidrTable.Proofs.Netmask
import CidrTable.Proofs.Subnet.Key

/-! The grammar of subnet keys.

`Masks` says what a mask comes to beside an address: digits are a length, an address of the
same family is a netmask, and everything else is refused for one reason. `Key.Means` adds
the address in front of the first slash. Both are written without an order of tests; reading
agrees with them (`maskLength_iff_masks`, `Key.ofString_iff_means`), so no text has two
meanings and none is without. -/
namespace CidrTable

namespace Address

/-! ### Bits of an address -/

def bit : Address → Nat → Bool
  | .v4 bits, i => bits.getMsbD i
  | .v6 bits, i => bits.getMsbD i

theorem ext_bit (a b : Address) (hwidth : a.width = b.width) (h : ∀ i, a.bit i = b.bit i) :
    a = b := by
  cases a with
  | v4 x =>
    cases b with
    | v4 y => exact congrArg v4 (BitVec.eq_of_getMsbD_eq fun i _ => h i)
    | v6 y => cases hwidth
  | v6 x =>
    cases b with
    | v4 y => cases hwidth
    | v6 y => exact congrArg v6 (BitVec.eq_of_getMsbD_eq fun i _ => h i)

theorem bit_keep (a : Address) (n i : Nat) : (a.keep n).bit i = (a.bit i && decide (i < n)) := by
  cases a with
  | v4 bits => exact Word.getMsbD_keep bits n i
  | v6 bits => exact Word.getMsbD_keep bits n i

/-- The address is `n` ones and then zeros. -/
def LeadingOnes : Address → Nat → Prop
  | .v4 bits, n => Word.LeadingOnes bits n
  | .v6 bits, n => Word.LeadingOnes bits n

theorem LeadingOnes.le {a : Address} {n : Nat} (h : a.LeadingOnes n) : n ≤ a.width := by
  cases a with
  | v4 bits => exact Word.LeadingOnes.le h
  | v6 bits => exact Word.LeadingOnes.le h

/-- The length of an address that is ones and then zeros. -/
def onesLength? : Address → Option Nat
  | .v4 bits => Word.onesLength? bits
  | .v6 bits => Word.onesLength? bits

theorem onesLength?_eq_some_iff (a : Address) (n : Nat) :
    a.onesLength? = some n ↔ a.LeadingOnes n := by
  cases a with
  | v4 bits => exact Word.onesLength?_eq_some_iff bits n
  | v6 bits => exact Word.onesLength?_eq_some_iff bits n

end Address

namespace Subnet

/-! ### Masks -/

/-- The text is decimal digits, however many, and denotes the number. -/
structure IsNumber (text : List Char) (n : Nat) : Prop where
  nonempty : text ≠ []
  digits : ∀ c ∈ text, c.isDigit = true
  value : Nat.ofDigitChars 10 text 0 = n

/-- What a mask comes to beside an address: a length, or why it is refused. -/
inductive Masks (a : Address) (mask : List Char) : Except KeyError Nat → Prop where
  /-- Digits are a length that the family allows. -/
  | length (n : Nat) : IsNumber mask n → n ≤ a.width → Masks a mask (.ok n)
  | beyond (n : Nat) : IsNumber mask n → a.width < n →
      Masks a mask (.error (.lengthOutOfRange (.ofList mask) a.width))
  /-- An address of the same family is a netmask if its ones come first. -/
  | netmask (m : Address) (n : Nat) : m.Spelled mask → m.width = a.width → m.LeadingOnes n →
      Masks a mask (.ok n)
  | scattered (m : Address) : m.Spelled mask → m.width = a.width → (∀ n, ¬ m.LeadingOnes n) →
      Masks a mask (.error (.netmask (.ofList mask)))
  | mismatch (m : Address) : m.Spelled mask → m.width ≠ a.width →
      Masks a mask (.error (.familyMismatch (.ofList mask)))
  /-- Nothing else is a mask. -/
  | other : (∀ n, ¬ IsNumber mask n) → (∀ m : Address, ¬ m.Spelled mask) →
      Masks a mask (.error (.netmask (.ofList mask)))

/-- A mask gives no length that the family does not allow. -/
theorem Masks.le {a : Address} {mask : List Char} {n : Nat} (h : Masks a mask (.ok n)) :
    n ≤ a.width := by
  cases h with
  | length _ _ hle => exact hle
  | netmask m _ _ hfamily hones => exact hfamily ▸ hones.le

theorem isDigits_iff (mask : List Char) :
    (!mask.isEmpty && mask.all Char.isDigit) = true ↔ ∃ n, IsNumber mask n := by
  rw [Bool.and_eq_true, Bool.not_eq_true', List.isEmpty_eq_false_iff, List.all_eq_true]
  constructor
  · exact fun h => ⟨_, h.1, h.2, rfl⟩
  · rintro ⟨n, hne, hdigits, -⟩
    exact ⟨hne, hdigits⟩

theorem maskLength_of_number (a : Address) (mask : List Char) (n : Nat) (h : IsNumber mask n) :
    maskLength a mask =
      if n ≤ a.width then .ok n else .error (.lengthOutOfRange (.ofList mask) a.width) := by
  refine maskLength_of_digits a mask n ((isDigits_iff mask).mpr ⟨n, h⟩) ?_
  rw [Text.ofDigits?_of_isDigit mask h.nonempty h.digits, h.value]

/-- An address is judged as a netmask of its own family. -/
theorem maskLength_of_spelled (a m : Address) (mask : List Char) (h : m.Spelled mask) :
    maskLength a mask =
      if m.width = a.width then m.onesLength?.elim (.error (.netmask (.ofList mask))) .ok
      else .error (.familyMismatch (.ofList mask)) := by
  have hdigits : ¬ (!mask.isEmpty && mask.all Char.isDigit) = true := by
    rw [isDigits_iff]
    rintro ⟨n, hn⟩
    exact Address.not_spelled_of_isDigit mask hn.digits m h
  unfold maskLength
  rw [if_neg hdigits]
  cases m with
  | v4 bits =>
    have h4 : Address.readV4? mask = some bits := h
    cases a with
    | v4 x =>
      -- At the front of the wider word the netmask has the length it has alone.
      have hlength : Word.onesLength? (bits ++ (0 : BitVec 96)) = Word.onesLength? bits := by
        apply Option.ext
        intro n
        rw [Word.onesLength?_eq_some_iff, Word.onesLength?_eq_some_iff, Word.leadingOnes_append_zero]
      rw [h4]
      dsimp only
      rw [hlength]
      rfl
    | v6 x =>
      rw [h4]
      rfl
  | v6 bits =>
    have h6 : Address.readV6? mask = some bits := h
    have h4 : Address.readV4? mask = none := by
      rw [Option.eq_none_iff_forall_ne_some]
      intro x hx
      have hboth := ((Address.read?_eq_some_iff mask _).mpr h).symm.trans
        ((Address.read?_eq_some_iff mask (.v4 x)).mpr hx)
      cases hboth
    rw [h4, h6]
    cases a with
    | v4 x => rfl
    | v6 x => rfl

theorem maskLength_of_other (a : Address) (mask : List Char) (hnumber : ∀ n, ¬ IsNumber mask n)
    (haddress : ∀ m : Address, ¬ m.Spelled mask) :
    maskLength a mask = .error (.netmask (.ofList mask)) := by
  have hdigits : ¬ (!mask.isEmpty && mask.all Char.isDigit) = true := by
    rw [isDigits_iff]
    exact fun ⟨n, hn⟩ => hnumber n hn
  have h4 : Address.readV4? mask = none :=
    Option.eq_none_iff_forall_ne_some.mpr fun x hx => haddress (.v4 x) hx
  have h6 : Address.readV6? mask = none :=
    Option.eq_none_iff_forall_ne_some.mpr fun x hx => haddress (.v6 x) hx
  unfold maskLength
  rw [if_neg hdigits, h4, h6]

/-- What a mask comes to is the length it is given. -/
theorem Masks.maskLength_eq {a : Address} {mask : List Char} {r : Except KeyError Nat}
    (h : Masks a mask r) : maskLength a mask = r := by
  cases h with
  | length n hn hle => rw [maskLength_of_number a mask n hn, if_pos hle]
  | beyond n hn hlt => rw [maskLength_of_number a mask n hn, if_neg (Nat.not_le.mpr hlt)]
  | netmask m n hm hfamily hones =>
    rw [maskLength_of_spelled a m mask hm, if_pos hfamily, (m.onesLength?_eq_some_iff n).mpr hones]
    rfl
  | scattered m hm hfamily hnone =>
    have hlength : m.onesLength? = none :=
      Option.eq_none_iff_forall_ne_some.mpr fun n hn => hnone n ((m.onesLength?_eq_some_iff n).mp hn)
    rw [maskLength_of_spelled a m mask hm, if_pos hfamily, hlength]
    rfl
  | mismatch m hm hfamily => rw [maskLength_of_spelled a m mask hm, if_neg hfamily]
  | other hnumber haddress => exact maskLength_of_other a mask hnumber haddress

theorem exists_masks (a : Address) (mask : List Char) : ∃ r, Masks a mask r := by
  by_cases hnumber : ∃ n, IsNumber mask n
  · obtain ⟨n, hn⟩ := hnumber
    by_cases hle : n ≤ a.width
    · exact ⟨_, .length n hn hle⟩
    · exact ⟨_, .beyond n hn (Nat.not_le.mp hle)⟩
  · by_cases haddress : ∃ m : Address, m.Spelled mask
    · obtain ⟨m, hm⟩ := haddress
      by_cases hfamily : m.width = a.width
      · by_cases hones : ∃ n, m.LeadingOnes n
        · obtain ⟨n, hn⟩ := hones
          exact ⟨_, .netmask m n hm hfamily hn⟩
        · exact ⟨_, .scattered m hm hfamily fun n hn => hones ⟨n, hn⟩⟩
      · exact ⟨_, .mismatch m hm hfamily⟩
    · exact ⟨_, .other (fun n hn => hnumber ⟨n, hn⟩) fun m hm => haddress ⟨m, hm⟩⟩

/-- **A mask is read as the grammar says.** -/
theorem maskLength_iff_masks (a : Address) (mask : List Char) (r : Except KeyError Nat) :
    maskLength a mask = r ↔ Masks a mask r := by
  constructor
  · rintro rfl
    obtain ⟨r, hr⟩ := exists_masks a mask
    rw [hr.maskLength_eq]
    exact hr
  · exact Masks.maskLength_eq

/-- The empty mask and one with a slash in it are neither numbers nor addresses. -/
theorem masks_of_slash (a : Address) (mask : List Char) (h : mask = [] ∨ '/' ∈ mask) :
    Masks a mask (.error (.netmask (.ofList mask))) := by
  refine .other (fun n hn => ?_) fun m hm => ?_
  · rcases h with hnil | hslash
    · exact hn.nonempty hnil
    · exact absurd (hn.digits '/' hslash) (by decide)
  · rcases h with hnil | hslash
    · subst hnil
      exact Address.not_spelled_of_isDigit [] nofun m hm
    · exact hm.not_mem_slash hslash

/-! ### Keys -/

namespace Key

/-- The key is an address cut to a length in its own family, every bit after it cleared. -/
structure Cut (a : Address) (n : Nat) (k : Key) : Prop where
  len : k.subnet.len = n
  family : k.subnet.address.width = a.width
  bits : ∀ i, k.subnet.address.bit i = (a.bit i && decide (i < n))
  maskBits : k.maskBits = a.width

/-- There is one such key. -/
theorem cut_iff (a : Address) (n : Nat) (h : n ≤ a.width) (k : Key) :
    Cut a n k ↔ k = ⟨truncate ⟨a, n, h⟩, a.width⟩ := by
  have hfamily : (a.keep n).width = a.width := width_network ⟨a, n, h⟩
  constructor
  · intro hcut
    obtain ⟨⟨address, len, hle⟩, maskBits⟩ := k
    obtain ⟨hlen, hwidth, hbits, hmask⟩ := hcut
    obtain rfl : len = n := hlen
    obtain rfl : maskBits = a.width := hmask
    obtain rfl : address = a.keep len :=
      Address.ext_bit _ _ (Eq.trans hwidth hfamily.symm) fun i =>
        (hbits i).trans (a.bit_keep len i).symm
    rfl
  · rintro rfl
    exact ⟨rfl, hfamily, a.bit_keep n, rfl⟩

/-- What a text means as a key. -/
inductive Means : List Char → Except KeyError Key → Prop where
  /-- Without a slash there is no mask. -/
  | bare (key : List Char) : '/' ∉ key → Means key (.error .missingSeparator)
  /-- What is in front of the first slash has to be an address, whatever the mask is. -/
  | address (front mask : List Char) : '/' ∉ front → (∀ a : Address, ¬ a.Spelled front) →
      Means (front ++ '/' :: mask) (.error .address)
  | refused (front mask : List Char) (a : Address) (e : KeyError) : '/' ∉ front →
      a.Spelled front → Masks a mask (.error e) → Means (front ++ '/' :: mask) (.error e)
  | cut (front mask : List Char) (a : Address) (n : Nat) (k : Key) : '/' ∉ front →
      a.Spelled front → Masks a mask (.ok n) → Cut a n k → Means (front ++ '/' :: mask) (.ok k)

theorem ofMask_of_masks {a : Address} {mask : List Char} {n : Nat} {k : Key}
    (h : Masks a mask (.ok n)) (hcut : Cut a n k) : ofMask a mask = .ok k := by
  rw [ofMask_of_length a mask n h.maskLength_eq h.le, (cut_iff a n h.le k).mp hcut]

theorem ofMask_of_refused {a : Address} {mask : List Char} {e : KeyError}
    (h : Masks a mask (.error e)) : ofMask a mask = .error e := by
  rw [ofMask, h.maskLength_eq]
  rfl

theorem Means.read_eq {key : List Char} {r : Except KeyError Key} (h : Means key r) :
    read key = r := by
  cases h with
  | bare key hslash =>
    have hdrop : key.dropWhile (· != '/') = [] := by
      refine List.dropWhile_eq_nil_iff.mpr fun c hc => bne_iff_ne.mpr ?_
      rintro rfl
      exact hslash hc
    rw [read, hdrop]
  | address front mask hslash hnone =>
    have hread : Address.read? front = none :=
      Option.eq_none_iff_forall_ne_some.mpr fun a ha =>
        hnone a ((Address.read?_eq_some_iff front a).mp ha)
    rw [read_cut front mask hslash, hread]
    rfl
  | refused front mask a e hslash ha hmask =>
    rw [read_cut front mask hslash, (Address.read?_eq_some_iff front a).mpr ha]
    exact ofMask_of_refused hmask
  | cut front mask a n k hslash ha hmask hcut =>
    rw [read_cut front mask hslash, (Address.read?_eq_some_iff front a).mpr ha]
    exact ofMask_of_masks hmask hcut

theorem exists_means (key : List Char) : ∃ r, Means key r := by
  by_cases hslash : '/' ∈ key
  · obtain ⟨front, mask, rfl, hfront⟩ := List.eq_append_cons_of_mem hslash
    by_cases haddress : ∃ a : Address, a.Spelled front
    · obtain ⟨a, ha⟩ := haddress
      obtain ⟨r, hr⟩ := exists_masks a mask
      cases r with
      | error e => exact ⟨_, .refused front mask a e hfront ha hr⟩
      | ok n => exact ⟨_, .cut front mask a n _ hfront ha hr ((cut_iff a n hr.le _).mpr rfl)⟩
    · exact ⟨_, .address front mask hfront fun a ha => haddress ⟨a, ha⟩⟩
  · exact ⟨_, .bare key hslash⟩

/-- **A key is read as the grammar says**: it is accepted or refused, with the reason, exactly
as it means. An empty mask and one with a slash are no masks, and once a mask has a length,
no subnet of that length is refused. -/
theorem ofString_iff_means :
    (∀ (s : String) (r : Except KeyError Key), ofString s = r ↔ Means s.toList r) ∧
      (∀ (a : Address) (mask : List Char), mask = [] ∨ '/' ∈ mask →
        Masks a mask (.error (.netmask (.ofList mask)))) ∧
      ∀ (a : Address) (mask : List Char) (n : Nat), maskLength a mask = .ok n →
        ∃ s, ofLength? a n = some s := by
  refine ⟨fun s r => ?_, masks_of_slash, fun a mask n hlength => ?_⟩
  · constructor
    · rintro rfl
      obtain ⟨r, hr⟩ := exists_means s.toList
      rw [ofString, hr.read_eq]
      exact hr
    · exact Means.read_eq
  · have hle : n ≤ a.width := ((maskLength_iff_masks a mask _).mp hlength).le
    exact ⟨_, dif_pos hle⟩

/-- A key with host bits and a netmask, beside a mask with a slash in it. -/
theorem netmask_key_means :
    Means "192.0.2.1/255.255.255.0".toList (.ok ⟨⟨.v4 0xC0000200, 24, by decide⟩, 32⟩) ∧
      '/' ∈ "24/".toList ∧ Masks (.v4 0xC0000201) "24/".toList (.error (.netmask "24/")) ∧
      maskLength (.v4 0xC0000201) "255.255.255.0".toList = .ok 24 ∧
      ∃ s, ofLength? (.v4 0xC0000201) 24 = some s :=
  ⟨(ofString_iff_means.1 "192.0.2.1/255.255.255.0" _).mp rfl, by decide,
    ofString_iff_means.2.1 _ "24/".toList (.inr (by decide)), rfl,
    ofString_iff_means.2.2 (.v4 0xC0000201) "255.255.255.0".toList 24 rfl⟩

end Key

end Subnet

end CidrTable
