import Konnekt.Snapshots.Signing
import Mathlib.Data.List.Infix
import Mathlib.Data.Multiset.MapFold
import Mathlib.Tactic.IntervalCases

/-!
# The order of the canonical query

The pairs of a query are sorted after they have been joined, so a name and the `=` after
it are compared with a longer name's next byte. That is the order of the names, and of
the values after them, as long as no name is continued by a byte below `=`.
-/

namespace Konnekt.Snapshots.Signing

/-! ## The encoding of one name or value -/

/-- An uppercase hexadecimal digit and its value. -/
def UpperHex (ch : UInt8) (n : Nat) : Prop :=
  n < 10 ∧ ch.toNat = 48 + n ∨ 10 ≤ n ∧ n < 16 ∧ ch.toNat = 55 + n

/-- The encoding of the signing specification: unreserved bytes as they are, every other one
as `%` and two uppercase hexadecimal digits. -/
inductive UriEncoded : Bytes → Bytes → Prop where
  | nil : UriEncoded [] []
  | unreserved {ch : UInt8} {s t : Bytes} : isUnreserved ch = true → UriEncoded s t →
      UriEncoded (ch :: s) (ch :: t)
  | reserved {ch hi lo : UInt8} {s t : Bytes} : isUnreserved ch = false →
      UpperHex hi (ch.toNat / 16) → UpperHex lo (ch.toNat % 16) → UriEncoded s t →
      UriEncoded (ch :: s) (percent :: hi :: lo :: t)

theorem toNat_hexDigit {n : UInt8} (h : n.toNat < 16) :
    (hexDigit n).toNat = if n.toNat < 10 then 48 + n.toNat else 55 + n.toNat := by
  rw [hexDigit]
  by_cases hn : n.toNat < 10
  · rw [if_pos (UInt8.lt_iff_toNat_lt.2 hn), if_pos hn, UInt8.toNat_add]
    change (48 + n.toNat) % 256 = 48 + n.toNat
    omega
  · rw [if_neg (fun hlt => hn (UInt8.lt_iff_toNat_lt.1 hlt)), if_neg hn, UInt8.toNat_add]
    change (55 + n.toNat) % 256 = 55 + n.toNat
    omega

theorem upperHex_hexDigit {n : UInt8} (h : n.toNat < 16) : UpperHex (hexDigit n) n.toNat := by
  rw [UpperHex, toNat_hexDigit h]
  by_cases hn : n.toNat < 10
  · exact .inl ⟨hn, if_pos hn⟩
  · exact .inr ⟨not_lt.1 hn, h, if_neg hn⟩

theorem UpperHex.unique {a b : UInt8} {n : Nat} (ha : UpperHex a n) (hb : UpperHex b n) :
    a = b := by
  apply UInt8.toNat_inj.1
  rw [UpperHex] at ha hb
  omega

theorem toNat_high (ch : UInt8) : (ch >>> 4).toNat = ch.toNat / 16 := by
  rw [UInt8.toNat_shiftRight, Nat.shiftRight_eq_div_pow]
  rfl

theorem toNat_low (ch : UInt8) : (ch &&& 15).toNat = ch.toNat % 16 := by
  rw [UInt8.toNat_and]
  exact Nat.and_two_pow_sub_one_eq_mod ch.toNat 4

theorem high_lt (ch : UInt8) : (ch >>> 4).toNat < 16 := by
  have := ch.toNat_lt
  rw [toNat_high]
  omega

theorem low_lt (ch : UInt8) : (ch &&& 15).toNat < 16 := by
  rw [toNat_low]
  omega

section

variable {ch : UInt8} (s : Bytes)

theorem s3URIEncode_unreserved (h : isUnreserved ch = true) :
    s3URIEncode true (ch :: s) = ch :: s3URIEncode true s := by
  rw [s3URIEncode, if_pos h]

theorem s3URIEncode_reserved (h : isUnreserved ch = false) :
    s3URIEncode true (ch :: s) =
      percent :: hexDigit (ch >>> 4) :: hexDigit (ch &&& 15) :: s3URIEncode true s := by
  rw [s3URIEncode, if_neg (by simp [h]), if_neg (by simp)]

end

/-- The encoder follows the specification, and there is nothing else that does. -/
theorem uriEncoded_iff {s t : Bytes} : UriEncoded s t ↔ s3URIEncode true s = t := by
  constructor
  · intro h
    induction h with
    | nil => rfl
    | unreserved hch _ ih => rw [s3URIEncode_unreserved _ hch, ih]
    | @reserved ch _ _ _ _ hch hhi hlo _ ih =>
      rw [← toNat_high] at hhi
      rw [← toNat_low] at hlo
      rw [s3URIEncode_reserved _ hch, ih, (upperHex_hexDigit (high_lt ch)).unique hhi,
        (upperHex_hexDigit (low_lt ch)).unique hlo]
  · rintro rfl
    induction s with
    | nil => exact .nil
    | cons ch s ih =>
      cases hch : isUnreserved ch with
      | true =>
        rw [s3URIEncode_unreserved _ hch]
        exact .unreserved hch ih
      | false =>
        rw [s3URIEncode_reserved _ hch]
        refine .reserved hch ?_ ?_ ih
        · rw [← toNat_high]
          exact upperHex_hexDigit (high_lt ch)
        · rw [← toNat_low]
          exact upperHex_hexDigit (low_lt ch)

theorem isUnreserved_iff (ch : UInt8) : isUnreserved ch = true ↔
    65 ≤ ch.toNat ∧ ch.toNat ≤ 90 ∨ 97 ≤ ch.toNat ∧ ch.toNat ≤ 122 ∨
      48 ≤ ch.toNat ∧ ch.toNat ≤ 57 ∨ ch.toNat = 45 ∨ ch.toNat = 46 ∨ ch.toNat = 95 ∨
        ch.toNat = 126 := by
  simp only [isUnreserved, isLetter, Bool.or_eq_true, decide_eq_true_eq, beq_iff_eq,
    UInt8.le_iff_toNat_le, ← UInt8.toNat_inj, or_assoc]
  rfl

/-- What an encoded text is made of: unreserved bytes and `%`. -/
theorem mem_s3URIEncode {s : Bytes} {ch : UInt8} (h : ch ∈ s3URIEncode true s) :
    isUnreserved ch = true ∨ ch = percent := by
  have hdigit : ∀ n : UInt8, n.toNat < 16 → isUnreserved (hexDigit n) = true := by
    intro n hn
    rw [isUnreserved_iff, toNat_hexDigit hn]
    split <;> omega
  induction s with
  | nil => cases h
  | cons d s ih =>
    cases hd : isUnreserved d with
    | true =>
      rw [s3URIEncode_unreserved _ hd] at h
      cases List.mem_cons.1 h with
      | inl h => exact .inl (h ▸ hd)
      | inr h => exact ih h
    | false =>
      rw [s3URIEncode_reserved _ hd] at h
      simp only [List.mem_cons] at h
      obtain rfl | rfl | rfl | h := h
      · exact .inr rfl
      · exact .inl (hdigit _ (high_lt d))
      · exact .inl (hdigit _ (low_lt d))
      · exact ih h

theorem equals_notMem (s : Bytes) : equals ∉ s3URIEncode true s := by
  intro h
  have := mem_s3URIEncode h
  revert this
  decide

theorem ampersand_notMem (s : Bytes) : ampersand ∉ s3URIEncode true s := by
  intro h
  have := mem_s3URIEncode h
  revert this
  decide

/-! ## Decoding -/

theorem toNat_hexValue {ch : UInt8} {n : Nat} (h : UpperHex ch n) : (hexValue ch).toNat = n := by
  have hlt := ch.toNat_lt
  rw [UpperHex] at h
  rw [hexValue]
  by_cases hch : ch ≤ 57
  · have hle : ch.toNat ≤ 57 := UInt8.le_iff_toNat_le.1 hch
    rw [if_pos hch, UInt8.toNat_sub]
    change (256 - 48 + ch.toNat) % 256 = n
    omega
  · have hle : ¬ ch.toNat ≤ 57 := fun hle => hch (UInt8.le_iff_toNat_le.2 hle)
    rw [if_neg hch, UInt8.toNat_sub]
    change (256 - 55 + ch.toNat) % 256 = n
    omega

theorem hexValue_digits (ch : UInt8) :
    hexValue (hexDigit (ch >>> 4)) * 16 + hexValue (hexDigit (ch &&& 15)) = ch := by
  have hlt := ch.toNat_lt
  apply UInt8.toNat_inj.1
  rw [UInt8.toNat_add, UInt8.toNat_mul, toNat_hexValue (upperHex_hexDigit (high_lt ch)),
    toNat_hexValue (upperHex_hexDigit (low_lt ch)), toNat_high, toNat_low]
  change (ch.toNat / 16 * 16 % 256 + ch.toNat % 16) % 256 = ch.toNat
  omega

theorem percentDecode_cons {ch : UInt8} (h : ch ≠ percent) (s : Bytes) :
    percentDecode (ch :: s) = ch :: percentDecode s := by
  match s with
  | [] => rfl
  | [_] => rfl
  | _ :: _ :: _ => rw [percentDecode, if_neg h]

theorem percentDecode_s3URIEncode (s : Bytes) : percentDecode (s3URIEncode true s) = s := by
  induction s with
  | nil => rfl
  | cons ch s ih =>
    cases hch : isUnreserved ch with
    | true =>
      have hne : ch ≠ percent := by
        rintro rfl
        revert hch
        decide
      rw [s3URIEncode_unreserved _ hch, percentDecode_cons hne, ih]
    | false =>
      rw [s3URIEncode_reserved _ hch, percentDecode, if_pos rfl, hexValue_digits, ih]

theorem decodePair_encodePair (p : Bytes × Bytes) : decodePair (encodePair p) = p := by
  have hall : ∀ ch ∈ s3URIEncode true p.1, (decide (ch ≠ equals)) = true := by
    intro ch hch
    exact decide_eq_true fun heq => equals_notMem p.1 (heq ▸ hch)
  rw [decodePair, encodePair, List.takeWhile_append_of_pos hall, List.dropWhile_append_of_pos hall,
    List.takeWhile_cons_of_neg (by simp), List.dropWhile_cons_of_neg (by simp), List.append_nil,
    List.drop_one, List.tail_cons, percentDecode_s3URIEncode, percentDecode_s3URIEncode]

theorem encodePair_ne_nil (p : Bytes × Bytes) : encodePair p ≠ [] := by
  simp [encodePair]

theorem ampersand_notMem_encodePair (p : Bytes × Bytes) : ampersand ∉ encodePair p := by
  rw [encodePair, List.mem_append, List.mem_cons]
  rintro (h | h | h)
  · exact ampersand_notMem _ h
  · revert h
    decide
  · exact ampersand_notMem _ h

/-- Joined texts come apart again. -/
theorem pieces_intercalate {ls : List Bytes} (h : ∀ l ∈ ls, l ≠ [] ∧ ampersand ∉ l) :
    (([ampersand].intercalate ls).splitOn ampersand).filter (· ≠ []) = ls := by
  by_cases hnil : ls = []
  · subst hnil
    rfl
  · rw [List.splitOn_intercalate ampersand (fun l hl => (h l hl).2) hnil, List.filter_eq_self]
    exact fun l hl => decide_eq_true (h l hl).1

section

variable (q : Values)

theorem pieces_s3CanonicalQuery :
    ((s3CanonicalQuery q).splitOn ampersand).filter (· ≠ []) =
      ((params q).map encodePair).insertionSort (· ≤ ·) := by
  apply pieces_intercalate
  intro l hl
  rw [List.mem_insertionSort] at hl
  obtain ⟨p, -, rfl⟩ := List.mem_map.1 hl
  exact ⟨encodePair_ne_nil p, ampersand_notMem_encodePair p⟩

/-- Decoding a canonical query gives the parameters it was made of. -/
theorem decodeQuery_s3CanonicalQuery : (decodeQuery (s3CanonicalQuery q)).Perm (params q) := by
  have hperm := (List.perm_insertionSort (· ≤ ·) ((params q).map encodePair)).map decodePair
  rw [decodeQuery, pieces_s3CanonicalQuery]
  apply hperm.trans
  rw [List.map_map]
  have hid : decodePair ∘ encodePair = id := funext decodePair_encodePair
  rw [hid, List.map_id]

end

/-! ## The order of joined pairs -/

/-- The order the specification asks for: by name, and by value under one name. -/
def PairLE (p e : Bytes × Bytes) : Prop := p.1 < e.1 ∨ p.1 = e.1 ∧ p.2 ≤ e.2

/-- A name and the `=` after it, followed by its value. -/
def joinPair (e : Bytes × Bytes) : Bytes := e.1 ++ equals :: e.2

/-- Every byte that continues one text to the other one is above `=`. -/
def Continues (a b : Bytes) : Prop := ∀ ch rest, b = a ++ ch :: rest → equals < ch

theorem Continues.tail {ch : UInt8} {a b : Bytes} (h : Continues (ch :: a) (ch :: b)) :
    Continues a b := by
  intro d rest heq
  exact h d rest (by rw [heq, List.cons_append])

/-- Joined pairs are in the order of the pairs where names are continued above `=` only. -/
theorem joinPair_le_iff {a b v w : Bytes} (ha : equals ∉ a) (hb : equals ∉ b)
    (hab : Continues a b) (hba : Continues b a) :
    joinPair (a, v) ≤ joinPair (b, w) ↔ PairLE (a, v) (b, w) := by
  simp only [joinPair, PairLE]
  induction a generalizing b with
  | nil =>
    cases b with
    | nil => simp [List.cons_le_cons_iff]
    | cons ch b =>
      have hlt : equals < ch := hab ch b rfl
      simp [List.cons_le_cons_iff, hlt]
  | cons ch a ih =>
    cases b with
    | nil =>
      have hlt : equals < ch := hba ch a rfl
      have hne : ch ≠ equals := by
        rintro rfl
        exact UInt8.lt_irrefl _ hlt
      simp [List.cons_le_cons_iff, hne, UInt8.lt_asymm hlt]
    | cons d b =>
      simp only [List.mem_cons, not_or] at ha hb
      by_cases hcd : ch = d
      · subst hcd
        have htail := ih ha.2 hb.2 hab.tail hba.tail
        simpa [List.cons_le_cons_iff, List.cons_lt_cons_iff] using htail
      · simp [List.cons_le_cons_iff, List.cons_lt_cons_iff, hcd]

/-- A name that is continued below `=` comes after the longer one once both are joined. -/
theorem joinPair_lt {a rest v w : Bytes} {ch : UInt8} (h : ch < equals) :
    joinPair (a ++ ch :: rest, w) < joinPair (a, v) := by
  simp only [joinPair]
  induction a with
  | nil => simp [List.cons_lt_cons_iff, h]
  | cons d a ih => simpa [List.cons_lt_cons_iff] using ih

theorem lt_append_cons (a rest : Bytes) (ch : UInt8) : a < a ++ ch :: rest := by
  induction a with
  | nil => simp
  | cons d a ih => simpa [List.cons_lt_cons_iff] using ih

instance : DecidableRel PairLE := fun p e =>
  inferInstanceAs (Decidable (p.1 < e.1 ∨ p.1 = e.1 ∧ p.2 ≤ e.2))

instance : Std.Total PairLE where
  total p e := by
    obtain hname | hname := em (p.1 = e.1)
    · obtain hvalue | hvalue := Std.Total.total (r := (· ≤ ·)) p.2 e.2
      · exact .inl (.inr ⟨hname, hvalue⟩)
      · exact .inr (.inr ⟨hname.symm, hvalue⟩)
    · by_cases hlt : p.1 < e.1
      · exact .inl (.inl hlt)
      · exact .inr (.inl (Std.lt_of_le_of_ne (List.not_lt.1 hlt) (Ne.symm hname)))

instance : IsTrans (Bytes × Bytes) PairLE where
  trans p e g := by
    rintro (hpe | ⟨hpe, hv⟩) (heg | ⟨heg, hw⟩)
    · exact .inl (List.lt_trans hpe heg)
    · exact .inl (heg ▸ hpe)
    · exact .inl (hpe ▸ heg)
    · exact .inr ⟨hpe.trans heg, List.le_trans hv hw⟩

/-! ## Names that are continued -/

/-- The bytes that come after `=` once they are encoded: letters, `_` and `~`. -/
def isAboveEquals (ch : UInt8) : Bool := isLetter ch || ch == 95 || ch == 126

theorem s3URIEncode_append (s t : Bytes) :
    s3URIEncode true (s ++ t) = s3URIEncode true s ++ s3URIEncode true t := by
  induction s with
  | nil => rfl
  | cons ch s ih =>
    cases hch : isUnreserved ch with
    | true => rw [List.cons_append, s3URIEncode_unreserved _ hch, s3URIEncode_unreserved _ hch,
        List.cons_append, ih]
    | false =>
      rw [List.cons_append, s3URIEncode_reserved _ hch, s3URIEncode_reserved _ hch, ih]
      rfl

theorem percentDecode_append (s t : Bytes) :
    percentDecode (s3URIEncode true s ++ t) = s ++ percentDecode t := by
  induction s with
  | nil => rfl
  | cons ch s ih =>
    cases hch : isUnreserved ch with
    | true =>
      have hne : ch ≠ percent := by
        rintro rfl
        revert hch
        decide
      rw [s3URIEncode_unreserved _ hch, List.cons_append, percentDecode_cons hne, ih]
      rfl
    | false =>
      rw [s3URIEncode_reserved _ hch]
      simp only [List.cons_append]
      rw [percentDecode, if_pos rfl, hexValue_digits, ih]

/-- The first byte of an encoded text tells how its first byte compares with `=`. -/
theorem exists_s3URIEncode_cons (ch : UInt8) (s : Bytes) : ∃ d t,
    s3URIEncode true (ch :: s) = d :: t ∧ (equals < d ↔ isAboveEquals ch = true) ∧
      (d < equals ↔ isAboveEquals ch = false) := by
  have habove : isAboveEquals ch = true ↔
      (65 ≤ ch.toNat ∧ ch.toNat ≤ 90 ∨ 97 ≤ ch.toNat ∧ ch.toNat ≤ 122) ∨ ch.toNat = 95 ∨
        ch.toNat = 126 := by
    simp only [isAboveEquals, isLetter, Bool.or_eq_true, decide_eq_true_eq, beq_iff_eq,
      UInt8.le_iff_toNat_le, ← UInt8.toNat_inj, or_assoc]
    rfl
  have hequals : equals.toNat = 61 := rfl
  cases hch : isUnreserved ch with
  | true =>
    refine ⟨ch, s3URIEncode true s, s3URIEncode_unreserved s hch, ?_, ?_⟩
    · rw [isUnreserved_iff] at hch
      rw [habove, UInt8.lt_iff_toNat_lt, hequals]
      omega
    · rw [isUnreserved_iff] at hch
      rw [← Bool.not_eq_true, habove, UInt8.lt_iff_toNat_lt, hequals]
      omega
  | false =>
    have hnot : isAboveEquals ch = false := by
      rw [← Bool.not_eq_true, isUnreserved_iff] at hch
      rw [← Bool.not_eq_true, habove]
      omega
    refine ⟨percent, _, s3URIEncode_reserved s hch, ?_, ?_⟩
    · rw [hnot]
      decide
    · rw [hnot]
      decide

/-- Encoded names continue above `=` where the names do. -/
theorem continues_of_names {a b : Bytes}
    (h : ∀ ch rest, b = a ++ ch :: rest → isAboveEquals ch = true) :
    Continues (s3URIEncode true a) (s3URIEncode true b) := by
  intro d rest heq
  have hb : b = a ++ percentDecode (d :: rest) := by
    rw [← percentDecode_append, ← heq, percentDecode_s3URIEncode]
  have htail : s3URIEncode true (percentDecode (d :: rest)) = d :: rest := by
    have hwhole : s3URIEncode true a ++ s3URIEncode true (percentDecode (d :: rest)) =
        s3URIEncode true a ++ d :: rest := by
      rw [← s3URIEncode_append, ← hb, heq]
    exact List.append_cancel_left hwhole
  cases hm : percentDecode (d :: rest) with
  | nil =>
    rw [hm] at htail
    cases htail
  | cons ch m =>
    rw [hm] at htail hb
    obtain ⟨d', t, hcons, habove, -⟩ := exists_s3URIEncode_cons ch m
    rw [hcons] at htail
    cases htail
    exact habove.2 (h ch m hb)

/-! ## The canonical query -/

/-- What the signing specification asks of the canonical query of some parameters: every pair
encoded, in order of name and value, and nothing else. -/
structure IsCanonicalQuery (out : Bytes) (parameters : Multiset (Bytes × Bytes)) : Prop where
  sorted : ∃ pairs : List (Bytes × Bytes),
    Multiset.Rel (fun p e : Bytes × Bytes => UriEncoded p.1 e.1 ∧ UriEncoded p.2 e.2)
        parameters pairs ∧
      pairs.Pairwise PairLE ∧ out = [ampersand].intercalate (pairs.map joinPair)
  decodes : (decodeQuery out : Multiset (Bytes × Bytes)) = parameters

/-- Both halves of a pair encoded. -/
def encodeBoth (p : Bytes × Bytes) : Bytes × Bytes := (s3URIEncode true p.1, s3URIEncode true p.2)

theorem joinPair_encodeBoth : joinPair ∘ encodeBoth = encodePair := rfl

theorem rel_uriEncoded_iff {s t : Multiset (Bytes × Bytes)} :
    Multiset.Rel (fun p e : Bytes × Bytes => UriEncoded p.1 e.1 ∧ UriEncoded p.2 e.2) s t ↔
      s.map encodeBoth = t := by
  rw [← Multiset.rel_eq, Multiset.rel_map_left]
  simp only [uriEncoded_iff, encodeBoth, Prod.ext_iff]

/-- No name in a query is continued by a byte below `=`. -/
def NamesContinueAbove (q : Values) : Prop :=
  ∀ p ∈ params q, ∀ e ∈ params q, ∀ ch rest, e.1 = p.1 ++ ch :: rest → isAboveEquals ch = true

section

variable {q : Values}

theorem joinPair_encodeBoth_le_iff (h : NamesContinueAbove q) {p e : Bytes × Bytes}
    (hp : p ∈ params q) (he : e ∈ params q) :
    PairLE (encodeBoth p) (encodeBoth e) ↔
      joinPair (encodeBoth p) ≤ joinPair (encodeBoth e) :=
  (joinPair_le_iff (equals_notMem _) (equals_notMem _) (continues_of_names (h p hp e he))
    (continues_of_names (h e he p hp))).symm

/-- Where no name is continued below `=`, sorting the joined pairs sorts the pairs. -/
theorem s3CanonicalQuery_eq (h : NamesContinueAbove q) :
    s3CanonicalQuery q = [ampersand].intercalate
      ((((params q).map encodeBoth).insertionSort PairLE).map joinPair) := by
  rw [s3CanonicalQuery, List.map_insertionSort PairLE (· ≤ ·) joinPair, List.map_map,
    joinPair_encodeBoth]
  intro p hp e he
  obtain ⟨p', hp', rfl⟩ := List.mem_map.1 hp
  obtain ⟨e', he', rfl⟩ := List.mem_map.1 he
  exact joinPair_encodeBoth_le_iff h hp' he'

theorem ampersand_notMem_joinPair {pairs : List (Bytes × Bytes)}
    (h : ((params q).map encodeBoth).Perm pairs) :
    ∀ l ∈ pairs.map joinPair, l ≠ [] ∧ ampersand ∉ l := by
  intro l hl
  obtain ⟨e, he, rfl⟩ := List.mem_map.1 hl
  obtain ⟨p, -, rfl⟩ := List.mem_map.1 (h.mem_iff.2 he)
  exact ⟨encodePair_ne_nil p, ampersand_notMem_encodePair p⟩

/-- Two pairs of the query stand in one list in the order of both sortings. -/
theorem pairLE_or_of_sorted {pairs : List (Bytes × Bytes)} (hpairs : pairs.Pairwise PairLE)
    (hjoined : (pairs.map joinPair).Pairwise (· ≤ ·)) {p e : Bytes × Bytes} (hp : p ∈ pairs)
    (he : e ∈ pairs) (hne : p ≠ e) :
    PairLE p e ∧ joinPair p ≤ joinPair e ∨ PairLE e p ∧ joinPair e ≤ joinPair p := by
  have hboth := (hpairs.and (List.pairwise_map.1 hjoined)).imp
    (S := fun p e => PairLE p e ∧ joinPair p ≤ joinPair e ∨ PairLE e p ∧ joinPair e ≤ joinPair p)
    fun h => .inl h
  have hsym : Std.Symm fun p e : Bytes × Bytes =>
      PairLE p e ∧ joinPair p ≤ joinPair e ∨ PairLE e p ∧ joinPair e ≤ joinPair p :=
    ⟨fun _ _ h => h.symm⟩
  exact hboth.forall hp he hne

/-- Pairs in both orders: no name of theirs is continued below `=`. -/
theorem namesContinueAbove_of_sorted {pairs : List (Bytes × Bytes)}
    (hperm : ((params q).map encodeBoth).Perm pairs) (hpairs : pairs.Pairwise PairLE)
    (hjoined : (pairs.map joinPair).Pairwise (· ≤ ·)) : NamesContinueAbove q := by
  intro p hp e he ch rest hname
  by_contra hnot
  obtain ⟨d, t, hcons, -, hbelow⟩ := exists_s3URIEncode_cons ch rest
  have hd : d < equals := hbelow.2 (Bool.eq_false_iff.2 hnot)
  have hlonger : (encodeBoth e).1 = (encodeBoth p).1 ++ d :: t := by
    simp only [encodeBoth]
    rw [hname, s3URIEncode_append, hcons]
  have hlt : (encodeBoth p).1 < (encodeBoth e).1 := by
    rw [hlonger]
    exact lt_append_cons _ _ _
  have hjoin : joinPair (encodeBoth e) < joinPair (encodeBoth p) := by
    rw [← Prod.mk.eta (p := encodeBoth e), hlonger]
    exact joinPair_lt hd
  have hmem : ∀ p ∈ params q, encodeBoth p ∈ pairs :=
    fun p hp => hperm.mem_iff.1 (List.mem_map_of_mem hp)
  have hne : encodeBoth p ≠ encodeBoth e := by
    intro heq
    rw [heq] at hlt
    exact List.lt_irrefl _ hlt
  obtain ⟨-, hle⟩ | ⟨hle, -⟩ := pairLE_or_of_sorted hpairs hjoined (hmem p hp) (hmem e he) hne
  · exact List.not_lt.2 hle hjoin
  · cases hle with
    | inl h => exact List.lt_asymm hlt h
    | inr h =>
      rw [h.1] at hlt
      exact List.lt_irrefl _ hlt

theorem namesContinueAbove_of_isCanonicalQuery
    (h : IsCanonicalQuery (s3CanonicalQuery q) (params q)) : NamesContinueAbove q := by
  obtain ⟨⟨pairs, hrel, hpairs, hout⟩, -⟩ := h
  have hperm : ((params q).map encodeBoth).Perm pairs := by
    rw [rel_uriEncoded_iff, Multiset.map_coe, Multiset.coe_eq_coe] at hrel
    exact hrel
  have hjoined := pieces_s3CanonicalQuery q
  rw [hout, pieces_intercalate (ampersand_notMem_joinPair hperm)] at hjoined
  apply namesContinueAbove_of_sorted hperm hpairs
  rw [hjoined]
  exact List.pairwise_insertionSort _ _

end

/-- The canonical query is the one of the specification exactly where no name in the query is
another one continued by a byte that is encoded below `=`. -/
theorem isCanonicalQuery_iff (q : Values) :
    IsCanonicalQuery (s3CanonicalQuery q) (params q) ↔ NamesContinueAbove q := by
  refine ⟨namesContinueAbove_of_isCanonicalQuery, fun h => ?_⟩
  refine ⟨⟨_, ?_, List.pairwise_insertionSort PairLE _, s3CanonicalQuery_eq h⟩, ?_⟩
  · rw [rel_uriEncoded_iff, Multiset.map_coe, Multiset.coe_eq_coe]
    exact (List.perm_insertionSort _ _).symm
  · rw [Multiset.coe_eq_coe]
    exact decodeQuery_s3CanonicalQuery q

/-- `a=1` and `a-=2`: the longer name comes first. -/
theorem not_isCanonicalQuery_hyphen :
    let q : Values := (AList.insert [97] [[49]] ∅).insert [97, 45] [[50]]
    s3CanonicalQuery q = [97, 45, 61, 50, 38, 97, 61, 49] ∧
      ¬ IsCanonicalQuery (s3CanonicalQuery q) (params q) := by
  refine ⟨by decide +kernel, fun h => ?_⟩
  have hall := namesContinueAbove_of_isCanonicalQuery h
  exact absurd (hall ([97], [49]) (by decide) ([97, 45], [50]) (by decide) 45 [] rfl) (by decide)

end Konnekt.Snapshots.Signing
