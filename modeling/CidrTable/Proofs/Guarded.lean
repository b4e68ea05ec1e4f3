import CidrTable.Proofs.Nesting
import CidrTable.Proofs.Subnet.Mapped

/-! Nothing leaves its range.

`Guarded` holds the steps of the library once more, each with the guards that its operands
call for: a number put into a byte fits it, a bit that is read is one of the 128, a prefix that is
made is no longer than an address, and one that is cut is cut within its length. A guard
that does not hold is an `Overrun`. The guarded steps come to what the unguarded ones come to, for
words (`commonLength_eq`, `onesLength?_eq`), tries (`insert_eq`, `get?_eq`, `lookup_eq`) and keys
(`toPrefix_eq`, `ofString_eq`), so no guard ever fails (`no_overrun`). -/
namespace CidrTable

variable {V : Type}

/-- A step that leaves the range of its operands. -/
inductive Overrun where
  /-- A number is put into a byte that does not hold it. -/
  | byte (n : Nat)
  /-- A bit is read behind the last of an address. -/
  | bit (i : Nat)
  /-- A prefix longer than an address is made. -/
  | length (n : Nat)
  /-- A prefix is cut behind its end. -/
  | cut (n len : Nat)
  deriving DecidableEq

namespace Guarded

/-! ### Guards -/

/-- The number, as a byte holds it. -/
def byte (n : Nat) : Except Overrun Nat :=
  if (BitVec.ofNat 8 n).toNat = n then .ok (BitVec.ofNat 8 n).toNat else .error (.byte n)

/-- Bit `i` of a prefix, of 128. -/
def bit (p : Prefix) (i : Nat) : Except Overrun Bool :=
  if i ≤ 127 then .ok (p.bit i) else .error (.bit i)

/-- The first `len` bits of a word, if addresses have that many. -/
def cut (bits : BitVec 128) (len : Nat) : Except Overrun Prefix :=
  match Prefix.ofBits? bits len with
  | some p => .ok p
  | none => .error (.length len)

/-- The prefix cut to `n` bits, if it has that many. -/
def truncate (p : Prefix) (n : Nat) : Except Overrun Prefix :=
  if n ≤ p.len then cut p.bits n else .error (.cut n p.len)

theorem ok_bind {α β : Type} (a : α) (f : α → Except Overrun β) : (Except.ok a >>= f) = f a := rfl

theorem byte_of_lt (n : Nat) (h : n < 256) : byte n = .ok n := by
  have hn : (BitVec.ofNat 8 n).toNat = n := Nat.mod_eq_of_lt h
  rw [byte, if_pos hn, hn]

theorem bit_of_le (p : Prefix) (i : Nat) (h : i ≤ 127) : bit p i = .ok (p.bit i) := if_pos h

theorem cut_of_le (bits : BitVec 128) (len : Nat) (h : len ≤ 128) :
    cut bits len = .ok (.cut bits len h) := by
  have hbits : Prefix.ofBits? bits len = some (.cut bits len h) := dif_pos h
  rw [cut, hbits]

theorem truncate_of_le (p : Prefix) (n : Nat) (h : n ≤ p.len) :
    truncate p n = .ok (p.truncate n) := by
  have hlen := p.len_le
  rw [truncate, if_pos h, cut_of_le p.bits n (by omega), Except.ok.injEq]
  exact Prefix.eq_of_bits_of_len (congrArg (Word.keep p.bits) (Nat.min_eq_left h).symm)
    (Nat.min_eq_left h).symm

/-! ### Words -/

/-- Leading bits that two words share, counted in a byte. -/
def commonLength (x y : BitVec 128) (limit : Nat) : Except Overrun Nat := do
  let differing := Word.keep (x ^^^ y) limit
  if differing = 0 then pure limit
  else
    let n ← byte differing.clz.toNat
    pure (min n limit)

/-- The length of a word made of ones and then zeros, counted in a byte. -/
def onesLength? (x : BitVec 128) : Except Overrun (Option Nat) := do
  let n ← byte (~~~x).clz.toNat
  pure (if x = Word.mask n then some n else none)

theorem byte_clz (x : BitVec 128) : byte x.clz.toNat = .ok x.clz.toNat :=
  byte_of_lt _ (Nat.lt_of_le_of_lt (Word.clz_toNat_le x) (by decide))

theorem commonLength_eq (x y : BitVec 128) (limit : Nat) :
    commonLength x y limit = .ok (Word.commonLength x y limit) := by
  rw [commonLength, Word.commonLength]
  by_cases hzero : Word.keep (x ^^^ y) limit = 0
  · simp only [if_pos hzero]
    rfl
  · simp only [if_neg hzero, byte_clz]
    rfl

theorem onesLength?_eq (x : BitVec 128) : onesLength? x = .ok (Word.onesLength? x) := by
  rw [onesLength?, byte_clz, ok_bind]
  rfl

/-! ### Tries -/

/-- Where `p` belongs relative to a node that stands for `q`. -/
def placement (p q : Prefix) : Except Overrun Placement := do
  let shared ← commonLength p.bits q.bits (min p.len q.len)
  if shared = q.len then
    if p.len = q.len then pure .same
    else
      let side ← bit p q.len
      pure (.below side)
  else
    let side ← bit q shared
    if shared = p.len then pure (.above side)
    else
      let branch ← truncate p shared
      pure (.apart branch side)

def insert (p : Prefix) (v : V) : Node V → Except Overrun (Node V × Option V)
  | .empty => pure (.node p (some v) .empty .empty, none)
  | .node q w zero one => do
    match ← placement p q with
    | .same => pure (.node q (some v) zero one, w)
    | .below false =>
      let (zero', old) ← insert p v zero
      pure (.node q w zero' one, old)
    | .below true =>
      let (one', old) ← insert p v one
      pure (.node q w zero one', old)
    | .above side => pure (Node.fork p (some v) side (.node q w zero one) .empty, none)
    | .apart branch side =>
      pure (Node.fork branch none side (.node q w zero one) (.node p (some v) .empty .empty), none)

def get? (p : Prefix) : Node V → Except Overrun (Option V)
  | .empty => pure none
  | .node q w zero one =>
    if q = p then pure w
    else if !q.contains p || p.len ≤ q.len then pure none
    else do
      let side ← bit p q.len
      if side then get? p one else get? p zero

def lookup (q : Prefix) : Node V → Except Overrun (Option (Prefix × V))
  | .empty => pure none
  | .node p w zero one =>
    if p.contains q then
      let own := w.map (p, ·)
      if q.len ≤ p.len then pure own
      else do
        let side ← bit q p.len
        let inner ← if side then lookup q one else lookup q zero
        pure (inner.or own)
    else pure none

def store (t : Trie V) (p : Prefix) (v : V) : Except Overrun (Trie V × Option V) := do
  let (root, old) ← insert p v t.root
  pure (⟨root, if old.isNone then t.size + 1 else t.size⟩, old)

def ofList (entries : List (Prefix × V)) : Except Overrun (Trie V) :=
  entries.foldlM (fun t e => Prod.fst <$> store t e.1 e.2) .empty

/-- **What two prefixes share ends in front of the longer one's last bit**, so a bit is read only
where there is one, and a cut is made only within the prefix. -/
theorem placement_eq (p q : Prefix) : placement p q = .ok (p.placement q) := by
  have hle := Word.commonLength_le p.bits q.bits (min p.len q.len)
  have hp := p.len_le
  have hq := q.len_le
  rw [placement, Prefix.placement, commonLength_eq]
  generalize Word.commonLength p.bits q.bits (min p.len q.len) = shared at hle ⊢
  rw [ok_bind]
  by_cases hsq : shared = q.len
  · by_cases hlen : p.len = q.len
    · simp only [if_pos hsq, if_pos hlen]
      rfl
    · simp only [if_pos hsq, if_neg hlen, bit_of_le p q.len (by omega)]
      rfl
  · by_cases hsp : shared = p.len
    · simp only [if_neg hsq, if_pos hsp, bit_of_le q shared (by omega)]
      rfl
    · simp only [if_neg hsq, if_neg hsp, bit_of_le q shared (by omega),
        truncate_of_le p shared (by omega)]
      rfl

theorem insert_eq (p : Prefix) (v : V) (n : Node V) : insert p v n = .ok (n.insert p v) := by
  induction n with
  | empty => rfl
  | node q w zero one ihz iho =>
    rw [insert, Node.insert, placement_eq, ok_bind]
    cases p.placement q with
    | same => rfl
    | below b =>
      cases b
      · simp only [ihz]
        rfl
      · simp only [iho]
        rfl
    | above b => rfl
    | apart r b => rfl

/-- Below a node that is shorter than the prefix there is a next bit to go by. -/
theorem get?_eq (p : Prefix) (n : Node V) : get? p n = .ok (n.get? p) := by
  induction n with
  | empty => rfl
  | node q w zero one ihz iho =>
    rw [get?, Node.get?]
    by_cases hq : q = p
    · rw [if_pos hq, if_pos hq]
      rfl
    · rw [if_neg hq, if_neg hq]
      cases hstop : !q.contains p || decide (p.len ≤ q.len)
      · rw [Bool.or_eq_false_iff, decide_eq_false_iff_not] at hstop
        have hp := p.len_le
        rw [bit_of_le p q.len (by omega), ok_bind]
        cases p.bit q.len
        · exact ihz
        · exact iho
      · rfl

theorem lookup_eq (q : Prefix) (n : Node V) : lookup q n = .ok (n.lookup q) := by
  induction n with
  | empty => rfl
  | node p w zero one ihz iho =>
    rw [lookup, Node.lookup]
    cases p.contains q
    · rfl
    · simp only [if_true]
      by_cases hlen : q.len ≤ p.len
      · rw [if_pos hlen, if_pos hlen]
        rfl
      · have hq := q.len_le
        rw [if_neg hlen, if_neg hlen, bit_of_le q p.len (by omega), ok_bind]
        cases q.bit p.len
        · simp only [Bool.false_eq_true, if_false, ihz]
          rfl
        · simp only [if_true, iho]
          rfl

theorem store_eq (t : Trie V) (p : Prefix) (v : V) : store t p v = .ok (t.insert p v) := by
  rw [store, insert_eq, ok_bind]
  rfl

theorem ofList_eq (entries : List (Prefix × V)) : ofList entries = .ok (Trie.ofList entries) := by
  have hfrom : ∀ t : Trie V, entries.foldlM (fun t e => Prod.fst <$> store t e.1 e.2) t =
      Except.ok (t.insertList entries) := by
    induction entries with
    | nil => exact fun t => rfl
    | cons e rest ih =>
      intro t
      rw [List.foldlM_cons, store_eq]
      exact ih (t.insert e.1 e.2).1
  exact hfrom .empty

/-! ### Subnets and keys -/

/-- The length of a subnet's prefix in the 128-bit space, in a byte that holds it. -/
def prefixLength (s : Subnet) : Except Overrun Nat :=
  match s.address with
  | .v4 _ => byte (s.len + 96)
  | .v6 _ => pure s.len

def toPrefix (s : Subnet) : Except Overrun Prefix := do
  let len ← prefixLength s
  cut s.network.word len

/-- The prefix length that a mask gives an address. -/
def maskLength (a : Address) (mask : List Char) : Except Overrun (Except KeyError Nat) :=
  if !mask.isEmpty && mask.all Char.isDigit then
    match Text.word? 16 mask with
    | some n =>
      if n.toNat ≤ a.width then do
        let len ← byte n.toNat
        pure (.ok len)
      else pure (.error (.lengthOutOfRange (.ofList mask) a.width))
    | none => pure (.error (.lengthOutOfRange (.ofList mask) a.width))
  else
    match Address.readV4? mask, Address.readV6? mask, a with
    | some _, _, .v6 _ => pure (.error (.familyMismatch (.ofList mask)))
    | some m, _, .v4 _ => do
      let len ← onesLength? (m ++ (0 : BitVec 96))
      pure (len.elim (.error (.netmask (.ofList mask))) .ok)
    | none, some _, .v4 _ => pure (.error (.familyMismatch (.ofList mask)))
    | none, some m, .v6 _ => do
      let len ← onesLength? m
      pure (len.elim (.error (.netmask (.ofList mask))) .ok)
    | none, none, _ => pure (.error (.netmask (.ofList mask)))

def ofMask (a : Address) (mask : List Char) : Except Overrun (Except KeyError Subnet.Key) := do
  match ← maskLength a mask with
  | .error e => pure (.error e)
  | .ok len =>
    match Subnet.ofLength? a len with
    | some s => pure (.ok ⟨s.truncate, a.width⟩)
    | none => pure (.error (.lengthOutOfRange (.ofList mask) a.width))

def read (key : List Char) : Except Overrun (Except KeyError Subnet.Key) :=
  match key.dropWhile (· != '/') with
  | [] => pure (.error .missingSeparator)
  | _ :: mask =>
    match Address.read? (key.takeWhile (· != '/')) with
    | none => pure (.error .address)
    | some a => ofMask a mask

def ofString (key : String) : Except Overrun (Except KeyError Prefix) := do
  match ← read key.toList with
  | .error e => pure (.error e)
  | .ok k =>
    let p ← toPrefix k.subnet
    pure (.ok p)

/-- An IPv4 length and the 96 bits in front of it fit a byte. -/
theorem prefixLength_eq (s : Subnet) : prefixLength s = .ok s.prefixLength := by
  obtain ⟨a, len, hlen⟩ := s
  cases a with
  | v4 bits =>
    have hle : len ≤ 32 := hlen
    show byte (len + 96) = .ok (Address.mappedLength len)
    rw [byte_of_lt _ (by omega), Address.mappedLength_of_le hle]
  | v6 bits => rfl

theorem toPrefix_eq (s : Subnet) : toPrefix s = .ok s.toPrefix := by
  rw [toPrefix, prefixLength_eq, ok_bind]
  exact cut_of_le s.network.word s.prefixLength s.prefixLength_le

/-- A length that an address allows fits a byte. -/
theorem maskLength_eq (a : Address) (mask : List Char) :
    maskLength a mask = .ok (Subnet.maskLength a mask) := by
  have hwidth := a.width_le
  unfold maskLength Subnet.maskLength
  split
  · cases Text.word? 16 mask with
    | none => rfl
    | some n =>
      by_cases hle : n.toNat ≤ a.width
      · have hbyte : (n.setWidth 8).toNat = n.toNat := by
          rw [BitVec.toNat_setWidth]
          exact Nat.mod_eq_of_lt (by omega)
        simp only [if_pos hle, byte_of_lt n.toNat (by omega), hbyte]
        rfl
      · simp only [if_neg hle]
        rfl
  · cases Address.readV4? mask with
    | some m =>
      cases a with
      | v4 x =>
        simp only [onesLength?_eq]
        rfl
      | v6 x => rfl
    | none =>
      cases Address.readV6? mask with
      | none => rfl
      | some m =>
        cases a with
        | v4 x => rfl
        | v6 x =>
          simp only [onesLength?_eq]
          rfl

theorem ofMask_eq (a : Address) (mask : List Char) :
    ofMask a mask = .ok (Subnet.Key.ofMask a mask) := by
  rw [ofMask, Subnet.Key.ofMask, maskLength_eq, ok_bind]
  cases Subnet.maskLength a mask with
  | error e => rfl
  | ok len =>
    simp only [bind, Except.bind]
    cases Subnet.ofLength? a len <;> rfl

theorem read_eq (key : List Char) : read key = .ok (Subnet.Key.read key) := by
  unfold read Subnet.Key.read
  cases key.dropWhile (· != '/') with
  | nil => rfl
  | cons slash mask =>
    cases Address.read? (key.takeWhile (· != '/')) with
    | none => rfl
    | some a => exact ofMask_eq a mask

theorem ofString_eq (key : String) : ofString key = .ok (Prefix.ofString key) := by
  rw [ofString, read_eq, Prefix.ofString, Subnet.Key.ofString, ok_bind]
  cases Subnet.Key.read key.toList with
  | error e => rfl
  | ok k =>
    simp only [toPrefix_eq, ok_bind]
    rfl

/-! ### All of it -/

/-- **No guard ever fails**: on every word, trie, prefix, subnet and key the guarded steps come to
what the unguarded ones come to. -/
theorem no_overrun :
    (∀ (x y : BitVec 128) (limit : Nat),
        commonLength x y limit = .ok (Word.commonLength x y limit)) ∧
      (∀ x : BitVec 128, onesLength? x = .ok (Word.onesLength? x)) ∧
      (∀ entries : List (Prefix × V), ofList entries = .ok (Trie.ofList entries)) ∧
      (∀ (t : Trie V) (p : Prefix) (v : V), store t p v = .ok (t.insert p v)) ∧
      (∀ (t : Trie V) (p : Prefix), get? p t.root = .ok (t.get? p)) ∧
      (∀ (t : Trie V) (q : Prefix), lookup q t.root = .ok (t.lookup q)) ∧
      (∀ s : Subnet, toPrefix s = .ok s.toPrefix) ∧
      (∀ (a : Address) (mask : List Char), maskLength a mask = .ok (Subnet.maskLength a mask)) ∧
      ∀ key : String, ofString key = .ok (Prefix.ofString key) :=
  ⟨commonLength_eq, onesLength?_eq, ofList_eq, store_eq, fun t p => get?_eq p t.root,
    fun t q => lookup_eq q t.root, toPrefix_eq, maskLength_eq, ofString_eq⟩

end Guarded

end CidrTable
