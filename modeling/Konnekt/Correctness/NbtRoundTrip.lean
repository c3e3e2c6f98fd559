import Konnekt.Worlds.Nbt
import Mathlib.Tactic.Ring

/-!
# What is written is read back

A tree is written in the big-endian format and read again. Every payload is read off
the front of the stream and nothing behind it is touched, so what follows an array that
is passed over, a list or a compound is read where it was written.
-/

namespace Konnekt.Worlds

/-! ## Numbers -/

/-- A number in some bytes, the highest first. -/
def bigEndianBytes : Nat → Nat → List UInt8
  | 0, _ => []
  | width + 1, n => bigEndianBytes width (n / 256) ++ [UInt8.ofNat n]

@[simp] theorem length_bigEndianBytes (width n : Nat) :
    (bigEndianBytes width n).length = width := by
  induction width generalizing n with
  | zero => rfl
  | succ width ih => rw [bigEndianBytes, List.length_append, ih, List.length_singleton]

theorem bigEndian_append (bs : List UInt8) (b : UInt8) :
    bigEndian (bs ++ [b]) = bigEndian bs * 256 + b.toNat := by
  rw [bigEndian, List.foldl_append]
  rfl

theorem bigEndian_bigEndianBytes {width n : Nat} (h : n < 256 ^ width) :
    bigEndian (bigEndianBytes width n) = n := by
  induction width generalizing n with
  | zero =>
    rw [pow_zero] at h
    have hn : n = 0 := by omega
    rw [hn]
    rfl
  | succ width ih =>
    have hdiv : n / 256 < 256 ^ width := by
      rw [pow_succ] at h
      exact Nat.div_lt_of_lt_mul (by rwa [mul_comm] at h)
    have hlow : (UInt8.ofNat n).toNat = n % 256 := rfl
    rw [bigEndianBytes, bigEndian_append, ih hdiv, hlow]
    omega

/-- A word is read back as the signed number it is. -/
theorem bigEndianInt_toNat {width w : Nat} (hw : w = 8 * width) (n : BitVec w) :
    bigEndianInt (bigEndianBytes width n.toNat) = n.toInt := by
  have hpow : 256 ^ width = 2 ^ w := by
    rw [hw, pow_mul]
    rfl
  rw [bigEndianInt, length_bigEndianBytes, bigEndian_bigEndianBytes (hpow ▸ n.isLt),
    BitVec.toInt_eq_toNat_cond, hpow, ← hpow]
  push_cast
  rfl

/-! ## Trees -/

/-- A tree as the format has it. -/
inductive NbtTree where
  | byte (n : BitVec 8)
  | short (n : BitVec 16)
  | int (n : BitVec 32)
  | long (n : BitVec 64)
  | float (bits : BitVec 32)
  | double (bits : BitVec 64)
  | byteArray (data : List (BitVec 8))
  | string (text : List UInt8)
  | list (elemType : UInt8) (elems : List NbtTree)
  | compound (entries : List (List UInt8 × NbtTree))
  | intArray (data : List (BitVec 32))
  | longArray (data : List (BitVec 64))

namespace NbtTree

def tag : NbtTree → UInt8
  | .byte _ => tagByte
  | .short _ => tagShort
  | .int _ => tagInt
  | .long _ => tagLong
  | .float _ => tagFloat
  | .double _ => tagDouble
  | .byteArray _ => tagByteArray
  | .string _ => tagString
  | .list .. => tagList
  | .compound _ => tagCompound
  | .intArray _ => tagIntArray
  | .longArray _ => tagLongArray

theorem tag_ne_tagEnd (t : NbtTree) : t.tag ≠ tagEnd := by
  cases t <;> rw [tag] <;> decide

end NbtTree

/-- A text behind its length. -/
def writtenString (text : List UInt8) : List UInt8 := bigEndianBytes 2 text.length ++ text

/-- Words behind their number. -/
def writtenArray {w : Nat} (width : Nat) (data : List (BitVec w)) : List UInt8 :=
  bigEndianBytes 4 data.length ++ data.flatMap fun n => bigEndianBytes width n.toNat

namespace NbtTree

mutual

/-- The payload of a tree. -/
def payload : NbtTree → List UInt8
  | .byte n => bigEndianBytes 1 n.toNat
  | .short n => bigEndianBytes 2 n.toNat
  | .int n => bigEndianBytes 4 n.toNat
  | .long n => bigEndianBytes 8 n.toNat
  | .float bits => bigEndianBytes 4 bits.toNat
  | .double bits => bigEndianBytes 8 bits.toNat
  | .byteArray data => writtenArray 1 data
  | .string text => writtenString text
  | .list elemType elems => elemType :: (bigEndianBytes 4 elems.length ++ writtenElems elems)
  | .compound entries => writtenEntries entries
  | .intArray data => writtenArray 4 data
  | .longArray data => writtenArray 8 data

def writtenElems : List NbtTree → List UInt8
  | [] => []
  | t :: ts => t.payload ++ writtenElems ts

def writtenEntries : List (List UInt8 × NbtTree) → List UInt8
  | [] => [tagEnd]
  | (name, t) :: es => t.tag :: (writtenString name ++ (t.payload ++ writtenEntries es))

end

/-- A tree under a name, as a file has it. -/
def written (name : List UInt8) (t : NbtTree) : List UInt8 :=
  t.tag :: (writtenString name ++ t.payload)

mutual

/-- What the reader makes of a tree: its integrals as signed numbers, its arrays dropped. -/
def value : NbtTree → NbtValue
  | .byte n => .i64 tagByte n.toInt
  | .short n => .i64 tagShort n.toInt
  | .int n => .i64 tagInt n.toInt
  | .long n => .i64 tagLong n.toInt
  | .float bits => .f64 tagFloat bits.toInt
  | .double bits => .f64 tagDouble bits.toInt
  | .byteArray _ => .empty tagByteArray
  | .string text => .str text
  | .list _ elems => .list (values elems)
  | .compound entries => .compound (namedValues entries)
  | .intArray _ => .empty tagIntArray
  | .longArray _ => .empty tagLongArray

def values : List NbtTree → List NbtValue
  | [] => []
  | t :: ts => t.value :: values ts

def namedValues : List (List UInt8 × NbtTree) → List (List UInt8 × NbtValue)
  | [] => []
  | (name, t) :: es => (name, t.value) :: namedValues es

end

mutual

/-- How deep payloads are nested in a tree. -/
def depth : NbtTree → Nat
  | .list _ elems => depths elems + 1
  | .compound entries => namedDepths entries + 1
  | _ => 1

def depths : List NbtTree → Nat
  | [] => 0
  | t :: ts => max t.depth (depths ts)

def namedDepths : List (List UInt8 × NbtTree) → Nat
  | [] => 0
  | (_, t) :: es => max t.depth (namedDepths es)

end

/-- A tree that the format can hold: lengths fit their fields, a list's elements have its type and
a compound's names are distinct. -/
inductive WellFormed : NbtTree → Prop
  | byte (n : BitVec 8) : WellFormed (.byte n)
  | short (n : BitVec 16) : WellFormed (.short n)
  | int (n : BitVec 32) : WellFormed (.int n)
  | long (n : BitVec 64) : WellFormed (.long n)
  | float (bits : BitVec 32) : WellFormed (.float bits)
  | double (bits : BitVec 64) : WellFormed (.double bits)
  | byteArray {data : List (BitVec 8)} : data.length < 2 ^ 31 → WellFormed (.byteArray data)
  | string {text : List UInt8} : text.length ≤ 65535 → WellFormed (.string text)
  | list {elemType : UInt8} {elems : List NbtTree} : elems.length < 2 ^ 31 →
      (∀ t ∈ elems, t.tag = elemType) → (∀ t ∈ elems, WellFormed t) →
      WellFormed (.list elemType elems)
  | compound {entries : List (List UInt8 × NbtTree)} : (entries.map Prod.fst).Nodup →
      (∀ e ∈ entries, e.1.length ≤ 65535) → (∀ e ∈ entries, WellFormed e.2) →
      WellFormed (.compound entries)
  | intArray {data : List (BitVec 32)} : data.length < 2 ^ 31 → WellFormed (.intArray data)
  | longArray {data : List (BitVec 64)} : data.length < 2 ^ 31 → WellFormed (.longArray data)

end NbtTree

/-! ## Reading what was written -/

section

variable (rest : List UInt8)

theorem readFull_append {n : Nat} {bs : List UInt8} (h : bs.length = n) :
    readFull n (bs ++ rest) = (.ok bs, rest) := by
  subst h
  rw [readFull, if_pos (by simp), List.take_left, List.drop_left]

theorem copyN_append {n : Int} {bs : List UInt8} (h : n = bs.length) :
    copyN n (bs ++ rest) = (.ok (), rest) := by
  subst h
  rw [copyN, if_pos (by simp), Int.toNat_natCast, List.drop_left]

theorem parseInt_append {width w : Nat} (hw : w = 8 * width) (n : BitVec w) :
    parseInt width (bigEndianBytes width n.toNat ++ rest) = (.ok n.toInt, rest) := by
  rw [parseInt, readFull_append rest (length_bigEndianBytes width _)]
  exact congrArg (fun v => (Except.ok v, rest)) (bigEndianInt_toNat hw n)

/-- A length is read back. -/
theorem parseInt_length_append {n : Nat} (h : n < 2 ^ 31) :
    parseInt 4 (bigEndianBytes 4 n ++ rest) = (.ok (n : Int), rest) := by
  rw [parseInt, readFull_append rest (length_bigEndianBytes 4 _)]
  have hpow : n < 256 ^ 4 := by omega
  have hint : bigEndianInt (bigEndianBytes 4 n) = n := by
    rw [bigEndianInt, length_bigEndianBytes, bigEndian_bigEndianBytes hpow]
    exact if_pos (by omega)
  exact congrArg (fun v => (Except.ok v, rest)) hint

theorem parseString_append {text : List UInt8} (h : text.length ≤ 65535) :
    parseString (writtenString text ++ rest) = (.ok text, rest) := by
  have hpow : text.length < 256 ^ 2 := by omega
  rw [parseString, writtenString, List.append_assoc, readFull_append _ (length_bigEndianBytes 2 _)]
  simp only [bigEndian_bigEndianBytes hpow]
  by_cases hnil : text = []
  · subst hnil
    rfl
  · rw [if_neg (by simpa using hnil), readFull_append rest rfl]

theorem parseSkipString_append {text : List UInt8} (h : text.length ≤ 65535) :
    parseSkipString (writtenString text ++ rest) = (.ok (), rest) := by
  have hpow : text.length < 256 ^ 2 := by omega
  rw [parseSkipString, writtenString, List.append_assoc,
    readFull_append _ (length_bigEndianBytes 2 _)]
  simp only [bigEndian_bigEndianBytes hpow]
  exact copyN_append rest rfl

theorem parseArray_append {width w : Nat} {data : List (BitVec w)} (h : data.length < 2 ^ 31) :
    parseArray width (writtenArray width data ++ rest) = (.ok (), rest) := by
  have hlength : (data.flatMap fun n => bigEndianBytes width n.toNat).length =
      data.length * width := by
    rw [List.length_flatMap]
    simp
  rw [parseArray, writtenArray, List.append_assoc, parseInt_length_append _ h]
  exact copyN_append rest (by rw [hlength]; push_cast; rfl)

theorem parseListHeader_append {elemType : UInt8} {n : Nat} (h : n < 2 ^ 31) :
    parseListHeader (elemType :: (bigEndianBytes 4 n ++ rest)) =
      (.ok (elemType, (n : Int)), rest) := by
  simp only [parseListHeader, parseByte, parseInt_length_append rest h]
  rfl

end

/-- A read that gives a value and leaves the rest of the stream. -/
def Gives {α : Type} (read : Stream → Read α) (bs : List UInt8) (v : α) : Prop :=
  ∀ rest allocs, ∃ allocs', read ⟨bs ++ rest, allocs⟩ = .ok v ⟨rest, allocs'⟩

theorem Parse.read_append {α : Type} {p : Parse α} {bs rest : List UInt8} {v : α}
    (h : p (bs ++ rest) = (.ok v, rest)) (allocs : List Alloc) :
    p.read ⟨bs ++ rest, allocs⟩ = .ok v ⟨rest, allocs⟩ := by
  simp only [Parse.read, h]

/-- A payload that is one read of bytes. -/
theorem gives_bind {α β : Type} {p : Parse α} {bs : List UInt8} {v : α} {f : α → β}
    (h : ∀ rest, p (bs ++ rest) = (.ok v, rest)) :
    Gives (fun s => (p.read s).bind fun v s => .ok (f v) s) bs (f v) := by
  intro rest allocs
  refine ⟨allocs, ?_⟩
  simp only [Parse.read_append (h rest), Read.bind]

namespace NbtTree

/-- The loop over a list reads the elements one after the other. -/
theorem gives_readElems {read : Stream → Read NbtValue} {elems : List NbtTree}
    (h : ∀ t ∈ elems, Gives read t.payload t.value) :
    Gives (readElems read elems.length) (writtenElems elems) (values elems) := by
  induction elems with
  | nil => exact fun rest allocs => ⟨allocs, rfl⟩
  | cons t ts ih =>
    intro rest allocs
    obtain ⟨allocs₁, hfirst⟩ :=
      h t List.mem_cons_self (writtenElems ts ++ rest) allocs
    obtain ⟨allocs₂, hrest⟩ := ih (fun t' ht' => h t' (List.mem_cons_of_mem t ht')) rest allocs₁
    refine ⟨allocs₂, ?_⟩
    rw [writtenElems, List.append_assoc, List.length_cons, readElems, hfirst]
    simp only [Read.bind, hrest, values]

theorem setEntry_of_notMem {name : List UInt8} {entries : List (List UInt8 × NbtValue)}
    (h : name ∉ entries.map Prod.fst) (child : NbtValue) :
    setEntry name child entries = entries ++ [(name, child)] := by
  rw [setEntry, List.filter_eq_self.2]
  intro e he
  refine decide_eq_true fun heq => h ?_
  exact List.mem_map.2 ⟨e, he, heq⟩

/-- The loop over a compound reads the entries up to the end tag, under their names. -/
theorem gives_readEntries {readChild : UInt8 → Stream → Read NbtValue}
    {entries : List (List UInt8 × NbtTree)} {rounds : Nat}
    {done : List (List UInt8 × NbtValue)} (hrounds : entries.length < rounds)
    (hnames : (done.map Prod.fst ++ entries.map Prod.fst).Nodup)
    (hlength : ∀ e ∈ entries, e.1.length ≤ 65535)
    (h : ∀ e ∈ entries, Gives (readChild e.2.tag) e.2.payload e.2.value) :
    Gives (readEntries readChild rounds done) (writtenEntries entries)
      (done ++ namedValues entries) := by
  induction entries generalizing rounds done with
  | nil =>
    intro rest allocs
    obtain ⟨rounds, rfl⟩ := Nat.exists_eq_succ_of_ne_zero (Nat.ne_of_gt hrounds)
    refine ⟨allocs, ?_⟩
    rw [writtenEntries, readEntries, List.singleton_append]
    simp only [Parse.read, parseByte, Read.bind, if_true, namedValues, List.append_nil]
  | cons e es ih =>
    obtain ⟨name, t⟩ := e
    intro rest allocs
    obtain ⟨rounds, rfl⟩ := Nat.exists_eq_succ_of_ne_zero (Nat.ne_of_gt (Nat.zero_lt_of_lt hrounds))
    have hname : name ∉ done.map Prod.fst := by
      intro hmem
      exact (List.nodup_append.1 hnames).2.2 name hmem name (by simp) rfl
    obtain ⟨allocs₁, hchild⟩ := h (name, t) List.mem_cons_self (writtenEntries es ++ rest) allocs
    have hnext : ((done ++ [(name, t.value)]).map Prod.fst ++ es.map Prod.fst).Nodup := by
      simpa [List.append_assoc] using hnames
    obtain ⟨allocs₂, hrest⟩ := ih (Nat.lt_of_succ_lt_succ hrounds) hnext
      (fun e he => hlength e (List.mem_cons_of_mem _ he))
      (fun e he => h e (List.mem_cons_of_mem _ he)) rest allocs₁
    have hstring : parseString.read
        ⟨writtenString name ++ (t.payload ++ (writtenEntries es ++ rest)), allocs⟩ =
          .ok name ⟨t.payload ++ (writtenEntries es ++ rest), allocs⟩ :=
      Parse.read_append (parseString_append _ (hlength (name, t) List.mem_cons_self)) allocs
    refine ⟨allocs₂, ?_⟩
    rw [writtenEntries, readEntries, List.cons_append, List.append_assoc, List.append_assoc]
    simp only [Parse.read, parseByte, Read.bind, if_neg t.tag_ne_tagEnd]
    simp only [Parse.read] at hstring
    rw [hstring]
    simp only [hchild, setEntry_of_notMem hname, hrest, namedValues, List.append_assoc,
      List.singleton_append]

theorem depth_le_depths {t : NbtTree} {ts : List NbtTree} (h : t ∈ ts) : t.depth ≤ depths ts := by
  induction ts with
  | nil => cases h
  | cons t' ts ih =>
    rw [depths]
    cases List.mem_cons.1 h with
    | inl h => exact h ▸ Nat.le_max_left _ _
    | inr h => exact (ih h).trans (Nat.le_max_right _ _)

theorem depth_le_namedDepths {e : List UInt8 × NbtTree} {es : List (List UInt8 × NbtTree)}
    (h : e ∈ es) : e.2.depth ≤ namedDepths es := by
  induction es with
  | nil => cases h
  | cons e' es ih =>
    obtain ⟨name, t⟩ := e'
    rw [namedDepths]
    cases List.mem_cons.1 h with
    | inl h => exact h ▸ Nat.le_max_left _ _
    | inr h => exact (ih h).trans (Nat.le_max_right _ _)

theorem length_writtenEntries (es : List (List UInt8 × NbtTree)) :
    es.length < (writtenEntries es).length := by
  induction es with
  | nil => simp [writtenEntries]
  | cons e es ih =>
    obtain ⟨name, t⟩ := e
    simp only [writtenEntries, List.length_cons, List.length_append]
    omega

theorem depth_pos (t : NbtTree) : 0 < t.depth := by
  cases t <;> simp [depth]

theorem gives_word {stack width w : Nat} {tag : UInt8} {f : Int → NbtValue}
    (hread : readPayload (stack + 1) tag =
      fun s => ((parseInt width).read s).bind fun n s => .ok (f n) s)
    (hw : w = 8 * width) (n : BitVec w) :
    Gives (readPayload (stack + 1) tag) (bigEndianBytes width n.toNat) (f n.toInt) := by
  rw [hread]
  exact gives_bind fun rest => parseInt_append rest hw n

theorem gives_array {stack width w : Nat} {tag : UInt8} {data : List (BitVec w)}
    (hread : readPayload (stack + 1) tag =
      fun s => ((parseArray width).read s).bind fun _ s => .ok (.empty tag) s)
    (hdata : data.length < 2 ^ 31) :
    Gives (readPayload (stack + 1) tag) (writtenArray width data) (.empty tag) := by
  rw [hread]
  exact @gives_bind _ _ _ _ _ (fun _ => NbtValue.empty tag)
    fun rest => parseArray_append rest hdata

/-- A payload is read off the front of the stream, whatever stands behind it. -/
theorem gives_readPayload_succ {t : NbtTree} (h : WellFormed t) {stack : Nat}
    (hstack : t.depth ≤ stack + 1) :
    Gives (readPayload (stack + 1) t.tag) t.payload t.value := by
  induction h generalizing stack with
  | byte n =>
    rw [payload, value, tag]
    exact @gives_word stack 1 8 _ _ rfl rfl n
  | short n =>
    rw [payload, value, tag]
    exact @gives_word stack 2 16 _ _ rfl rfl n
  | int n =>
    rw [payload, value, tag]
    exact @gives_word stack 4 32 _ _ rfl rfl n
  | long n =>
    rw [payload, value, tag]
    exact @gives_word stack 8 64 _ _ rfl rfl n
  | float bits =>
    rw [payload, value, tag]
    exact @gives_word stack 4 32 _ _ rfl rfl bits
  | double bits =>
    rw [payload, value, tag]
    exact @gives_word stack 8 64 _ _ rfl rfl bits
  | byteArray hdata =>
    rw [payload, value, tag]
    exact gives_array rfl hdata
  | string htext =>
    have hread : readPayload (stack + 1) tagString =
        fun s => (parseString.read s).bind fun str s => .ok (.str str) s := rfl
    rw [payload, value, tag, hread]
    exact gives_bind fun rest => parseString_append rest htext
  | @list elemType elems hlength htags _ ih =>
    have helems : ∀ t ∈ elems, Gives (readPayload stack elemType) t.payload t.value := by
      intro t ht
      have hdepth := depth_le_depths ht
      rw [depth] at hstack
      have hpos := depth_pos t
      obtain ⟨stack, rfl⟩ := Nat.exists_eq_add_of_le' (show 1 ≤ stack by omega)
      rw [← htags t ht]
      exact ih t ht (by omega)
    intro rest allocs
    obtain ⟨allocs', hloop⟩ := gives_readElems helems rest
      (⟨elems.length, (writtenElems elems ++ rest).length⟩ :: allocs)
    have hheader : parseListHeader.read ⟨elemType :: (bigEndianBytes 4 elems.length ++
        (writtenElems elems ++ rest)), allocs⟩ =
          .ok (elemType, (elems.length : Int)) ⟨writtenElems elems ++ rest, allocs⟩ := by
      simp only [Parse.read, parseListHeader_append _ hlength]
    refine ⟨allocs', ?_⟩
    rw [payload, value, tag, List.cons_append, List.append_assoc]
    have hread : ∀ s, readPayload (stack + 1) tagList s =
        (parseListHeader.read s).bind fun header s =>
          if header.2 < 0 then .crash { s with allocs := ⟨header.2, s.rest.length⟩ :: s.allocs }
          else (readElems (readPayload stack header.1) header.2.toNat
            { s with allocs := ⟨header.2, s.rest.length⟩ :: s.allocs }).bind fun list s =>
              .ok (.list list) s := fun s => rfl
    rw [hread, hheader]
    simp only [Read.bind]
    rw [if_neg (by omega), Int.toNat_natCast, hloop]
  | @compound entries hnames hlength _ ih =>
    have hentries : ∀ e ∈ entries, Gives (readPayload stack e.2.tag) e.2.payload e.2.value := by
      intro e he
      have hdepth := depth_le_namedDepths he
      have hpos := depth_pos e.2
      rw [depth] at hstack
      obtain ⟨stack, rfl⟩ := Nat.exists_eq_add_of_le' (show 1 ≤ stack by omega)
      exact ih e he (by omega)
    intro rest allocs
    have hrounds : entries.length < (writtenEntries entries ++ rest).length + 1 := by
      have := length_writtenEntries entries
      rw [List.length_append]
      omega
    obtain ⟨allocs', hloop⟩ := @gives_readEntries _ _ _ [] hrounds hnames hlength hentries
      rest allocs
    refine ⟨allocs', ?_⟩
    rw [payload, value, tag]
    change (readEntries (readPayload stack) _ [] _).bind _ = _
    rw [hloop]
    rfl
  | intArray hdata =>
    rw [payload, value, tag]
    exact gives_array rfl hdata
  | longArray hdata =>
    rw [payload, value, tag]
    exact gives_array rfl hdata

theorem gives_readPayload {t : NbtTree} (h : WellFormed t) {stack : Nat}
    (hstack : t.depth ≤ stack) : Gives (readPayload stack t.tag) t.payload t.value := by
  have hpos := depth_pos t
  obtain ⟨stack, rfl⟩ := Nat.exists_eq_add_of_le' (show 1 ≤ stack by omega)
  exact gives_readPayload_succ h hstack

theorem gives_readNamedTag {t : NbtTree} (h : WellFormed t) {name : List UInt8}
    (hname : name.length ≤ 65535) {stack : Nat} (hstack : t.depth ≤ stack) :
    Gives (readNamedTag stack) (t.written name) t.value := by
  intro rest allocs
  obtain ⟨allocs', hpayload⟩ := gives_readPayload h hstack rest allocs
  have hskip : parseSkipString.read ⟨writtenString name ++ (t.payload ++ rest), allocs⟩ =
      .ok () ⟨t.payload ++ rest, allocs⟩ :=
    Parse.read_append (parseSkipString_append _ hname) allocs
  refine ⟨allocs', ?_⟩
  rw [written, readNamedTag, List.cons_append, List.append_assoc]
  simp only [Parse.read, parseByte, Read.bind, if_neg t.tag_ne_tagEnd]
  simp only [Parse.read] at hskip
  rw [hskip]
  exact hpayload

/-! ## What the accessors give -/

/-- The signed number of an integral. -/
def integral : NbtTree → Option Int
  | .byte n => some n.toInt
  | .short n => some n.toInt
  | .int n => some n.toInt
  | .long n => some n.toInt
  | _ => none

theorem integral_value {t : NbtTree} {n : Int} (h : t.integral = some n) :
    t.value.integral = n := by
  cases t with
  | byte | short | int | long =>
    rw [value]
    exact Option.some.inj h
  | _ => cases h

theorem find?_namedValues {entries : List (List UInt8 × NbtTree)} {key : List UInt8} {t : NbtTree}
    (hnames : (entries.map Prod.fst).Nodup) (h : (key, t) ∈ entries) :
    (namedValues entries).find? (·.1 = key) = some (key, t.value) := by
  induction entries with
  | nil => cases h
  | cons e es ih =>
    obtain ⟨name, t'⟩ := e
    rw [List.map_cons, List.nodup_cons] at hnames
    rw [namedValues, List.find?_cons]
    cases List.mem_cons.1 h with
    | inl h =>
      cases h
      simp
    | inr h =>
      have hne : name ≠ key := by
        rintro rfl
        exact hnames.1 (List.mem_map.2 ⟨(name, t), h, rfl⟩)
      simp only [hne, decide_false]
      exact ih hnames.2 h

theorem compoundGet_value {entries : List (List UInt8 × NbtTree)} {key : List UInt8} {t : NbtTree}
    (hnames : (entries.map Prod.fst).Nodup) (h : (key, t) ∈ entries) :
    compoundGet (some (value (.compound entries))) key = some t.value := by
  rw [value, compoundGet, find?_namedValues hnames h]
  rfl

theorem rangeGet_value {v : Option NbtValue} {key : List UInt8} {t : NbtTree} {n low high : Int}
    (hget : compoundGet v key = some t.value) (hn : t.integral = some n) (hlow : low ≤ n)
    (hhigh : n ≤ high) : rangeGet low high v key = n := by
  rw [rangeGet, hget]
  simp only [integral_value hn]
  exact if_neg (by omega)

end NbtTree

open NbtTree

/-- A tree is read back off the front of the stream, and the accessors give what was stored. -/
theorem nbt_roundTrip :
    (∀ t name, WellFormed t → name.length ≤ 65535 → ∀ stack, t.depth ≤ stack →
      ∀ rest allocs, ∃ allocs',
        readNamedTag stack ⟨t.written name ++ rest, allocs⟩ = .ok t.value ⟨rest, allocs'⟩) ∧
    ∀ entries key t, WellFormed (.compound entries) → (key, t) ∈ entries →
      compoundGet (some (value (.compound entries))) key = some t.value ∧
      (∀ n, t.integral = some n →
        longGet (some (value (.compound entries))) key = n ∧
        (-2 ^ 31 ≤ n → n < 2 ^ 31 → intGet (some (value (.compound entries))) key = n) ∧
        (-2 ^ 7 ≤ n → n < 2 ^ 7 → byteGet (some (value (.compound entries))) key = n)) ∧
      ∀ text, t = .string text → stringGet (some (value (.compound entries))) key = text := by
  refine ⟨fun t name h hname stack hstack => gives_readNamedTag h hname hstack, ?_⟩
  intro entries key t h hmem
  cases h with
  | compound hnames _ _ =>
    have hget := compoundGet_value hnames hmem
    refine ⟨hget, fun n hn => ⟨?_, fun hlow hhigh => ?_, fun hlow hhigh => ?_⟩, ?_⟩
    · rw [longGet, hget]
      exact integral_value hn
    · exact rangeGet_value hget hn hlow (by omega)
    · exact rangeGet_value hget hn hlow (by omega)
    · rintro text rfl
      rw [stringGet, hget, value]
      rfl

/-- A file with an array in front of a negative number, under a name that is passed over. -/
theorem nbt_roundTrip_spawn :
    let entries : List (List UInt8 × NbtTree) :=
      [([72], .byteArray [7, 8]), ([83], .int (-5)), ([78], .string [104, 105])]
    (∃ allocs, readNamedTag 2 ⟨(NbtTree.compound entries).written [68] ++ [255], []⟩ =
        .ok (.compound [([72], .empty tagByteArray), ([83], .i64 tagInt (-5)),
          ([78], .str [104, 105])]) ⟨[255], allocs⟩) ∧
      intGet (some (value (.compound entries))) [83] = -5 ∧
      stringGet (some (value (.compound entries))) [78] = [104, 105] := by
  intro entries
  have hwell : WellFormed (.compound entries) := by
    refine .compound (by decide) (by decide) ?_
    intro e he
    simp only [entries, List.mem_cons, List.not_mem_nil, or_false] at he
    obtain rfl | rfl | rfl := he
    · exact .byteArray (by decide)
    · exact .int _
    · exact .string (by decide)
  refine ⟨?_, ?_, ?_⟩
  · exact nbt_roundTrip.1 (.compound entries) [68] hwell (by decide) 2 (by decide) [255] []
  · have hint := (nbt_roundTrip.2 entries [83] (.int (-5)) hwell (by simp [entries])).2.1 (-5) rfl
    exact hint.2.1 (by decide) (by decide)
  · exact (nbt_roundTrip.2 entries [78] (.string [104, 105]) hwell (by simp [entries])).2.2 _ rfl

end Konnekt.Worlds
