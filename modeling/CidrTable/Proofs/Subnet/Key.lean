import CidrTable.Subnet.Key
import CidrTable.Proofs.Address.Text

/-! Canonical texts of prefixes are keys, each for its own prefix.

`ofString_text` is the round trip, from which no two prefixes share a text
(`text_injective`). -/
namespace CidrTable

theorem Address.width_le (a : Address) : a.width ≤ 128 := by
  cases a with
  | v4 bits => exact Nat.le_of_ble_eq_true rfl
  | v6 bits => exact Nat.le_refl 128

namespace Subnet

/-! ### Lengths -/

/-- Digits are a mask if the family allows the number they denote, however many they are. -/
theorem maskLength_of_digits (a : Address) (mask : List Char) (n : Nat)
    (hdigits : (!mask.isEmpty && mask.all Char.isDigit) = true)
    (hread : Text.ofDigits? 10 mask = some n) :
    maskLength a mask =
      if n ≤ a.width then .ok n else .error (.lengthOutOfRange (.ofList mask) a.width) := by
  have hwidth := a.width_le
  unfold maskLength
  rw [if_pos hdigits, Text.word?_of_ofDigits? 16 mask n hread]
  by_cases hword : (BitVec.ofNat 16 n).toNat = n
  · rw [if_pos hword]
    dsimp only
    rw [hword]
    by_cases hle : n ≤ a.width
    · have hbyte : ((BitVec.ofNat 16 n).setWidth 8).toNat = n := by
        rw [BitVec.toNat_setWidth, hword]
        exact Nat.mod_eq_of_lt (by omega)
      rw [if_pos hle, if_pos hle, hbyte]
    · rw [if_neg hle, if_neg hle]
  · -- A number that sixteen bits do not hold is longer than every address.
    have hle : ¬ n ≤ a.width := fun hle => hword (Nat.mod_eq_of_lt (by omega))
    rw [if_neg hword, if_neg hle]

theorem maskLength_decimal (a : Address) (n : Nat) (h : n ≤ a.width) :
    maskLength a (Text.decimal n) = .ok n := by
  have hdigits : (!(Text.decimal n).isEmpty && (Text.decimal n).all Char.isDigit) = true := by
    rw [Bool.and_eq_true, Bool.not_eq_true', List.isEmpty_eq_false_iff, List.all_eq_true]
    refine ⟨Nat.toDigits_ne_nil, fun c hc => ?_⟩
    exact Nat.isDigit_of_mem_toDigits (b := 10) (by decide) (by decide) hc
  have hread : Text.ofDigits? 10 (Text.decimal n) = some n :=
    Text.ofDigits?_digits (by decide) (by decide) n
  rw [maskLength_of_digits a _ n hdigits hread, if_pos h]

/-! ### Keys -/

namespace Key

/-- A key is cut at its first slash, and its address is read first. -/
theorem read_cut (front mask : List Char) (hslash : '/' ∉ front) :
    read (front ++ '/' :: mask) =
      (Address.read? front).elim (.error .address) fun a => ofMask a mask := by
  have hpass : ∀ c ∈ front, (c != '/') = true :=
    fun c hc => bne_iff_ne.mpr fun heq => hslash (heq ▸ hc)
  have hdrop : (front ++ '/' :: mask).dropWhile (· != '/') = '/' :: mask := by
    rw [List.dropWhile_append_of_pos hpass]
    rfl
  have htake : (front ++ '/' :: mask).takeWhile (· != '/') = front := by
    rw [List.takeWhile_append_of_pos hpass]
    exact List.append_nil front
  rw [read, hdrop, htake]
  cases Address.read? front with
  | none => rfl
  | some a => rfl

theorem ofMask_of_length (a : Address) (mask : List Char) (n : Nat)
    (hmask : maskLength a mask = .ok n) (hn : n ≤ a.width) :
    ofMask a mask = .ok ⟨truncate ⟨a, n, hn⟩, a.width⟩ := by
  have hlength : ofLength? a n = some ⟨a, n, hn⟩ := dif_pos hn
  rw [ofMask, hmask]
  simp only [bind, Except.bind, hlength]

/-- A mask is as wide as the address in front of it. -/
theorem maskBits_of_ofMask (a : Address) (mask : List Char) (k : Key)
    (h : ofMask a mask = .ok k) : k.maskBits = a.width := by
  cases hmask : maskLength a mask with
  | error e =>
    rw [ofMask, hmask] at h
    cases h
  | ok n =>
    rw [ofMask, hmask] at h
    simp only [bind, Except.bind] at h
    split at h
    case h_1 => rw [← Except.ok.inj h]
    case h_2 => cases h

theorem maskBits_of_read (key : List Char) (k : Key) (h : read key = .ok k) :
    ∃ a : Address, k.maskBits = a.width := by
  unfold read at h
  split at h
  case h_1 => cases h
  case h_2 =>
    split at h
    case h_1 => cases h
    case h_2 a _ => exact ⟨a, maskBits_of_ofMask a _ k h⟩

end Key

end Subnet

namespace Prefix

/-- The subnet that a prefix is, in the family of the whole space. -/
def subnet (p : Prefix) : Subnet := ⟨.v6 p.bits, p.len, p.len_le⟩

theorem toPrefix_subnet (p : Prefix) : p.subnet.truncate.toPrefix = p := by
  obtain ⟨bits, len, hlen, hbits⟩ := p
  show Prefix.cut (Word.keep (Word.keep bits len) len) len _ = _
  rw [Prefix.mk.injEq]
  refine ⟨?_, rfl⟩
  show Word.keep (Word.keep (Word.keep bits len) len) len = bits
  rw [hbits, hbits, hbits]

/-- An address, a slash and a length that the address allows are a key for the subnet they name. -/
theorem ofString_of_read (front : List Char) (a : Address) (n : Nat) (hn : n ≤ a.width)
    (hslash : '/' ∉ front) (hread : Address.read? front = some a) :
    Prefix.ofString (.ofList (front ++ '/' :: Text.decimal n)) =
      .ok (Subnet.truncate ⟨a, n, hn⟩).toPrefix := by
  have hmask : Subnet.Key.ofMask a (Text.decimal n) = .ok ⟨Subnet.truncate ⟨a, n, hn⟩, a.width⟩ :=
    Subnet.Key.ofMask_of_length a _ n (Subnet.maskLength_decimal a n hn) hn
  rw [Prefix.ofString, Subnet.Key.ofString, String.toList_ofList,
    Subnet.Key.read_cut front _ hslash, hread, Option.elim_some, hmask]
  rfl

theorem ofString_text (p : Prefix) : Prefix.ofString p.text = .ok p := by
  have hkey := ofString_of_read (Address.writeV6 p.network) (.v6 p.bits) p.len p.len_le
    (Address.marks_writeV6 _).2 (Address.read?_writeV6 _)
  exact hkey.trans (congrArg Except.ok p.toPrefix_subnet)

theorem text_injective : Function.Injective Prefix.text := by
  intro p q h
  have hp := ofString_text p
  rw [h, ofString_text q] at hp
  exact (Except.ok.inj hp).symm

/-- **Canonical texts and prefixes match one to one.** -/
theorem canonical_text_round_trip :
    (∀ p : Prefix, Prefix.ofString p.text = .ok p) ∧ Function.Injective Prefix.text :=
  ⟨ofString_text, text_injective⟩

end Prefix

end CidrTable
