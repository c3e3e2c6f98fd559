import Konnekt.Worlds.Nbt
import Mathlib.Data.List.Infix

/-!
# Reading a level.dat ends

The bytes a payload takes are a grammar of their own, and so are the payloads a reader
comes to, with how deep they are nested. A stream crashes the reader, or makes it ask for
slots the stream cannot fill, exactly when it comes to a payload deeper than the stack or
to a list whose length is negative or more than what is left.
-/

namespace Konnekt.Worlds

/-! ## The grammar -/

/-- The bytes of a value, passed over. -/
def Parse.skip {α : Type} (p : Parse α) (bs : List UInt8) : Option (List UInt8) :=
  match p bs with
  | (.ok _, rest) => some rest
  | (.error _, _) => none

/-- What is left after a payload that is neither a list nor a compound. -/
def skipPlain (tag : UInt8) : List UInt8 → Option (List UInt8) :=
  match tag with
  | tagByte => (parseInt 1).skip
  | tagShort => (parseInt 2).skip
  | tagInt | tagFloat => (parseInt 4).skip
  | tagLong | tagDouble => (parseInt 8).skip
  | tagString => Parse.skip parseString
  | tagByteArray => (parseArray 1).skip
  | tagIntArray => (parseArray 4).skip
  | tagLongArray => (parseArray 8).skip
  | _ => fun _ => none

/-- What is read: a payload of a tag, some payloads of a tag one after the other, or the entries of
a compound up to its end. -/
inductive Item where
  | payload (tag : UInt8)
  | elems (tag : UInt8) (n : Nat)
  | entries

/-- Some bytes start with an item, and what is left after it. -/
inductive Reads : Item → List UInt8 → List UInt8 → Prop
  | plain {tag : UInt8} {bs rest : List UInt8} (hskip : skipPlain tag bs = some rest) :
      Reads (.payload tag) bs rest
  | list {elemType : UInt8} {n : Int} {bs mid rest : List UInt8}
      (hheader : parseListHeader bs = (.ok (elemType, n), mid)) (hn : 0 ≤ n)
      (helems : Reads (.elems elemType n.toNat) mid rest) : Reads (.payload tagList) bs rest
  | compound {bs rest : List UInt8} (hentries : Reads .entries bs rest) :
      Reads (.payload tagCompound) bs rest
  | noElem {tag : UInt8} {bs : List UInt8} : Reads (.elems tag 0) bs bs
  | elem {tag : UInt8} {n : Nat} {bs mid rest : List UInt8} (hfirst : Reads (.payload tag) bs mid)
      (helems : Reads (.elems tag n) mid rest) : Reads (.elems tag (n + 1)) bs rest
  | close {bs rest : List UInt8} (htype : parseByte bs = (.ok tagEnd, rest)) :
      Reads .entries bs rest
  | entry {tag : UInt8} {name bs bs₁ bs₂ mid rest : List UInt8}
      (htype : parseByte bs = (.ok tag, bs₁)) (htag : tag ≠ tagEnd)
      (hname : parseString bs₁ = (.ok name, bs₂)) (hchild : Reads (.payload tag) bs₂ mid)
      (hentries : Reads .entries mid rest) : Reads .entries bs rest

/-- Reading an item comes to a payload, nested in so many others. -/
inductive Visits : Item → List UInt8 → Nat → UInt8 → List UInt8 → Prop
  | here {tag : UInt8} {bs : List UInt8} : Visits (.payload tag) bs 0 tag bs
  | list {elemType tag' : UInt8} {n : Int} {bs mid bs' : List UInt8} {depth : Nat}
      (hheader : parseListHeader bs = (.ok (elemType, n), mid)) (hn : 0 ≤ n)
      (helems : Visits (.elems elemType n.toNat) mid depth tag' bs') :
      Visits (.payload tagList) bs (depth + 1) tag' bs'
  | compound {tag' : UInt8} {bs bs' : List UInt8} {depth : Nat}
      (hentries : Visits .entries bs depth tag' bs') :
      Visits (.payload tagCompound) bs (depth + 1) tag' bs'
  | elem {tag tag' : UInt8} {n depth : Nat} {bs bs' : List UInt8}
      (hfirst : Visits (.payload tag) bs depth tag' bs') :
      Visits (.elems tag (n + 1)) bs depth tag' bs'
  | laterElem {tag tag' : UInt8} {n depth : Nat} {bs mid bs' : List UInt8}
      (hfirst : Reads (.payload tag) bs mid) (helems : Visits (.elems tag n) mid depth tag' bs') :
      Visits (.elems tag (n + 1)) bs depth tag' bs'
  | entry {tag tag' : UInt8} {name bs bs₁ bs₂ bs' : List UInt8} {depth : Nat}
      (htype : parseByte bs = (.ok tag, bs₁)) (htag : tag ≠ tagEnd)
      (hname : parseString bs₁ = (.ok name, bs₂))
      (hchild : Visits (.payload tag) bs₂ depth tag' bs') : Visits .entries bs depth tag' bs'
  | laterEntry {tag tag' : UInt8} {name bs bs₁ bs₂ mid bs' : List UInt8} {depth : Nat}
      (htype : parseByte bs = (.ok tag, bs₁)) (htag : tag ≠ tagEnd)
      (hname : parseString bs₁ = (.ok name, bs₂)) (hchild : Reads (.payload tag) bs₂ mid)
      (hentries : Visits .entries mid depth tag' bs') : Visits .entries bs depth tag' bs'

/-- A list's length is one that what is left of the stream can fill. -/
def Fills (bs : List UInt8) : Prop :=
  ∀ elemType n mid, parseListHeader bs = (.ok (elemType, n), mid) → 0 ≤ n ∧ n ≤ mid.length

/-- Every payload an item comes to is within the stack, and every list's length is one the stream
can fill. -/
def Fits (stack : Nat) (item : Item) (bs : List UInt8) : Prop :=
  ∀ depth tag bs', Visits item bs depth tag bs' → depth < stack ∧ (tag = tagList → Fills bs')

/-! ## What is left is shorter -/

theorem readFull_length {n : Nat} {bs v rest : List UInt8} (h : readFull n bs = (.ok v, rest)) :
    rest.length ≤ bs.length := by
  unfold readFull at h
  split_ifs at h <;> cases h
  rw [List.length_drop]
  exact Nat.sub_le _ _

theorem copyN_length {n : Int} {bs rest : List UInt8} (h : copyN n bs = (.ok (), rest)) :
    rest.length ≤ bs.length := by
  unfold copyN at h
  split_ifs at h <;> cases h
  rw [List.length_drop]
  exact Nat.sub_le _ _

theorem parseByte_length {b : UInt8} {bs rest : List UInt8} (h : parseByte bs = (.ok b, rest)) :
    rest.length < bs.length := by
  cases bs with
  | nil => cases h
  | cons b' bs =>
    cases h
    exact Nat.lt_succ_self _

theorem parseInt_length {width : Nat} {n : Int} {bs rest : List UInt8}
    (h : parseInt width bs = (.ok n, rest)) : rest.length ≤ bs.length := by
  unfold parseInt at h
  cases hread : readFull width bs with
  | mk r rest' =>
    rw [hread] at h
    cases r with
    | error msg => cases h
    | ok v =>
      cases h
      exact readFull_length hread

theorem parseString_length {str bs rest : List UInt8} (h : parseString bs = (.ok str, rest)) :
    rest.length ≤ bs.length := by
  unfold parseString at h
  split at h
  · cases h
  · next length mid hlength =>
    split_ifs at h
    · cases h
      exact readFull_length hlength
    · exact (readFull_length h).trans (readFull_length hlength)

theorem parseArray_length {width : Nat} {bs rest : List UInt8}
    (h : parseArray width bs = (.ok (), rest)) : rest.length ≤ bs.length := by
  unfold parseArray at h
  split at h
  · cases h
  · next length mid hlength => exact (copyN_length h).trans (parseInt_length hlength)

theorem parseListHeader_length {elemType : UInt8} {n : Int} {bs rest : List UInt8}
    (h : parseListHeader bs = (.ok (elemType, n), rest)) : rest.length ≤ bs.length := by
  unfold parseListHeader at h
  split at h
  · cases h
  · next t mid ht =>
    cases hn : parseInt 4 mid with
    | mk r rest' =>
      rw [hn] at h
      cases r with
      | error msg => cases h
      | ok v =>
        cases h
        exact (parseInt_length hn).trans (parseByte_length ht).le

theorem skip_eq_some {α : Type} {p : Parse α} {bs rest : List UInt8} :
    p.skip bs = some rest ↔ ∃ v, p bs = (.ok v, rest) := by
  unfold Parse.skip
  split
  · next v rest' hp =>
    rw [hp]
    constructor
    · rintro ⟨⟩
      exact ⟨v, rfl⟩
    · rintro ⟨_, ⟨⟩⟩
      rfl
  · next msg rest' hp =>
    rw [hp]
    exact ⟨nofun, nofun⟩

theorem skipPlain_length {tag : UInt8} {bs rest : List UInt8} (h : skipPlain tag bs = some rest) :
    rest.length ≤ bs.length := by
  unfold skipPlain at h
  split at h
  all_goals first
    | exact (skip_eq_some.1 h).elim fun _ h => parseInt_length h
    | exact (skip_eq_some.1 h).elim fun _ h => parseString_length h
    | exact (skip_eq_some.1 h).elim fun _ h => parseArray_length h
    | cases h

theorem Reads.length_le {item : Item} {bs rest : List UInt8} (h : Reads item bs rest) :
    rest.length ≤ bs.length := by
  induction h with
  | plain hskip => exact skipPlain_length hskip
  | list hheader _ _ ih => exact ih.trans (parseListHeader_length hheader)
  | compound _ ih => exact ih
  | noElem => exact Nat.le_refl _
  | elem _ _ ih ih' => exact ih'.trans ih
  | close htype => exact (parseByte_length htype).le
  | entry htype _ hname _ _ ih ih' =>
    exact ih'.trans (ih.trans ((parseString_length hname).trans (parseByte_length htype).le))

/-! ## What fits -/

theorem fits_elems {stack n : Nat} {tag : UInt8} {bs : List UInt8} :
    Fits stack (.elems tag (n + 1)) bs ↔ Fits stack (.payload tag) bs ∧
      ∀ mid, Reads (.payload tag) bs mid → Fits stack (.elems tag n) mid := by
  constructor
  · intro h
    exact ⟨fun d t bs' hv => h d t bs' hv.elem,
      fun mid hmid d t bs' hv => h d t bs' (.laterElem hmid hv)⟩
  · rintro ⟨hfirst, hlater⟩ d t bs' hv
    cases hv with
    | elem hv => exact hfirst d t bs' hv
    | laterElem hmid hv => exact hlater _ hmid d t bs' hv

theorem fits_entries {stack : Nat} {tag : UInt8} {name bs bs₁ bs₂ : List UInt8}
    (htype : parseByte bs = (.ok tag, bs₁)) (htag : tag ≠ tagEnd)
    (hname : parseString bs₁ = (.ok name, bs₂)) :
    Fits stack .entries bs ↔ Fits stack (.payload tag) bs₂ ∧
      ∀ mid, Reads (.payload tag) bs₂ mid → Fits stack .entries mid := by
  constructor
  · intro h
    exact ⟨fun d t bs' hv => h d t bs' (.entry htype htag hname hv),
      fun mid hmid d t bs' hv => h d t bs' (.laterEntry htype htag hname hmid hv)⟩
  · rintro ⟨hfirst, hlater⟩ d t bs' hv
    cases hv with
    | entry htype' _ hname' hv =>
      cases htype.symm.trans htype'
      cases hname.symm.trans hname'
      exact hfirst d t bs' hv
    | laterEntry htype' _ hname' hmid hv =>
      cases htype.symm.trans htype'
      cases hname.symm.trans hname'
      exact hlater _ hmid d t bs' hv

theorem fits_list {stack : Nat} {elemType : UInt8} {n : Int} {bs mid : List UInt8}
    (hheader : parseListHeader bs = (.ok (elemType, n), mid)) :
    Fits (stack + 1) (.payload tagList) bs ↔
      (0 ≤ n ∧ n ≤ mid.length) ∧ Fits stack (.elems elemType n.toNat) mid := by
  constructor
  · intro h
    obtain ⟨_, hfills⟩ := h 0 tagList bs .here
    have hn := hfills rfl elemType n mid hheader
    refine ⟨hn, fun d t bs' hv => ?_⟩
    obtain ⟨hdepth, hfills⟩ := h (d + 1) t bs' (.list hheader hn.1 hv)
    exact ⟨Nat.lt_of_succ_lt_succ hdepth, hfills⟩
  · rintro ⟨hn, helems⟩ d t bs' hv
    cases hv with
    | here =>
      refine ⟨Nat.succ_pos stack, fun _ e n' mid' hheader' => ?_⟩
      cases hheader.symm.trans hheader'
      exact hn
    | list hheader' _ hv =>
      cases hheader.symm.trans hheader'
      obtain ⟨hdepth, hfills⟩ := helems _ t bs' hv
      exact ⟨Nat.succ_lt_succ hdepth, hfills⟩

theorem fits_compound {stack : Nat} {bs : List UInt8} :
    Fits (stack + 1) (.payload tagCompound) bs ↔ Fits stack .entries bs := by
  constructor
  · intro h d t bs' hv
    obtain ⟨hdepth, hfills⟩ := h (d + 1) t bs' hv.compound
    exact ⟨Nat.lt_of_succ_lt_succ hdepth, hfills⟩
  · intro h d t bs' hv
    cases hv with
    | here => exact ⟨Nat.succ_pos stack, nofun⟩
    | compound hv =>
      obtain ⟨hdepth, hfills⟩ := h _ t bs' hv
      exact ⟨Nat.succ_lt_succ hdepth, hfills⟩

/-! ## What a read does -/

/-- Every allocation asked for slots the stream could fill. -/
def Stream.Good (s : Stream) : Prop := ∀ a ∈ s.allocs, 0 ≤ a.cap ∧ a.cap ≤ a.left

/-- A read ends with a value or an error, after good allocations only. -/
def Read.Good {α : Type} : Read α → Prop
  | .ok _ s => s.Good
  | .err _ s => s.Good
  | .crash _ => False

variable {α β : Type}

/-- A read is good exactly when the stream was and something fits; it takes what a language allows,
and gives a value wherever it fits and the language does. -/
structure Meets (r : Read α) (s : Stream) (fits : Prop) (L : List UInt8 → Prop) : Prop where
  good : r.Good ↔ s.Good ∧ fits
  sound : ∀ v s', r = .ok v s' → L s'.rest
  complete : fits → ∀ rest, L rest → ∃ v s', r = .ok v s' ∧ s'.rest = rest

namespace Meets

variable {r : Read α} {s : Stream} {fits fits' : Prop} {L L' : List UInt8 → Prop}

theorem congr (h : Meets r s fits L) (hfits : fits' ↔ fits) (hL : ∀ rest, L' rest ↔ L rest) :
    Meets r s fits' L' where
  good := h.good.trans (and_congr_right' hfits.symm)
  sound v s' hr := (hL _).2 (h.sound v s' hr)
  complete hfits' rest hrest := h.complete (hfits.1 hfits') rest ((hL rest).1 hrest)

/-- A value is wrapped. -/
theorem map (h : Meets r s fits L) (f : α → β) :
    Meets (r.bind fun v s => .ok (f v) s) s fits L := by
  cases r with
  | ok v s' =>
    refine ⟨h.good, fun w s'' hw => ?_, fun hfits rest hrest => ?_⟩
    · cases hw
      exact h.sound v s' rfl
    · obtain ⟨_, _, hr, rfl⟩ := h.complete hfits rest hrest
      cases hr
      exact ⟨_, _, rfl, rfl⟩
  | err msg s' =>
    refine ⟨h.good, nofun, fun hfits rest hrest => ?_⟩
    obtain ⟨_, _, hr, _⟩ := h.complete hfits rest hrest
    cases hr
  | crash s' =>
    refine ⟨h.good, nofun, fun hfits rest hrest => ?_⟩
    obtain ⟨_, _, hr, _⟩ := h.complete hfits rest hrest
    cases hr

/-- One read after another. -/
theorem bind {next : α → Stream → Read β} {A : List UInt8 → Prop}
    {M : List UInt8 → List UInt8 → Prop} (h : Meets r s fits L)
    (hnext : ∀ v s', r = .ok v s' → Meets (next v s') s' (A s'.rest) (M s'.rest)) :
    Meets (r.bind next) s (fits ∧ ∀ mid, L mid → A mid) (fun rest => ∃ mid, L mid ∧ M mid rest)
    := by
  have hmid : ∀ v s', r = .ok v s' → fits → ∀ mid, L mid → mid = s'.rest := by
    intro v s' hr hfits mid hmid
    obtain ⟨_, _, hr', rfl⟩ := h.complete hfits mid hmid
    cases hr.symm.trans hr'
    rfl
  have hok : fits → ∀ mid, L mid → ∃ v s', r = .ok v s' := by
    intro hfits mid hmid
    obtain ⟨v, s', hr, _⟩ := h.complete hfits mid hmid
    exact ⟨v, s', hr⟩
  cases r with
  | ok v s' =>
    have hlater := hnext v s' rfl
    have hfits_iff : fits ∧ (∀ mid, L mid → A mid) ↔ fits ∧ A s'.rest := by
      refine and_congr_right fun hfits => ⟨fun hall => hall _ (h.sound v s' rfl), ?_⟩
      intro hafter mid hL
      rw [hmid v s' rfl hfits mid hL]
      exact hafter
    refine ⟨?_, fun w s'' hw => ⟨_, h.sound v s' rfl, hlater.sound w s'' hw⟩, ?_⟩
    · rw [hfits_iff, ← and_assoc]
      exact hlater.good.trans (and_congr_left' h.good)
    · rintro ⟨hfits, hall⟩ rest ⟨mid, hL, hM⟩
      obtain rfl := hmid v s' rfl hfits mid hL
      exact hlater.complete (hall _ hL) rest hM
  | err msg s' =>
    have hnone : fits → ∀ mid, ¬ L mid := by
      intro hfits mid hL
      obtain ⟨_, _, hr⟩ := hok hfits mid hL
      cases hr
    refine ⟨h.good.trans (and_congr_right' ?_), nofun, ?_⟩
    · exact (and_iff_left_of_imp fun hfits mid hL => absurd hL (hnone hfits mid)).symm
    · rintro ⟨hfits, _⟩ rest ⟨mid, hL, _⟩
      exact absurd hL (hnone hfits mid)
  | crash s' =>
    refine ⟨⟨nofun, fun ⟨hs, hfits, _⟩ => h.good.2 ⟨hs, hfits⟩⟩, nofun, ?_⟩
    rintro ⟨hfits, _⟩ rest ⟨mid, hL, _⟩
    obtain ⟨_, _, hr⟩ := hok hfits mid hL
    cases hr

/-- A read after some bytes were parsed. -/
theorem parse {p : Parse α} {next : α → Stream → Read β}
    (hok : ∀ v rest, p s.rest = (.ok v, rest) → Meets (next v { s with rest }) { s with rest } fits L)
    (herr : ∀ msg rest, p s.rest = (.error msg, rest) → fits ∧ ∀ rest', ¬ L rest') :
    Meets ((p.read s).bind next) s fits L := by
  unfold Parse.read
  split
  · next v rest hp =>
    have h := hok v rest hp
    exact ⟨h.good, h.sound, h.complete⟩
  · next msg rest hp =>
    obtain ⟨hfits, hnone⟩ := herr msg rest hp
    exact ⟨⟨fun hs => ⟨hs, hfits⟩, And.left⟩, nofun, fun _ rest' hL => absurd hL (hnone rest')⟩

/-- The end of a read. -/
theorem done {v : α} (hfits : fits) (hL : ∀ rest, L rest ↔ rest = s.rest) :
    Meets (.ok v s) s fits L where
  good := ⟨fun hs => ⟨hs, hfits⟩, And.left⟩
  sound w s' h := by
    cases h
    exact (hL _).2 rfl
  complete _ rest hrest := ⟨v, s, rfl, ((hL rest).1 hrest).symm⟩

end Meets

/-! ## Each loop -/

theorem meets_elems {stack : Nat} {tag : UInt8} {readElem : Stream → Read NbtValue}
    (helem : ∀ s, Meets (readElem s) s (Fits stack (.payload tag) s.rest)
      (Reads (.payload tag) s.rest)) (n : Nat) (s : Stream) :
    Meets (readElems readElem n s) s (Fits stack (.elems tag n) s.rest)
      (Reads (.elems tag n) s.rest) := by
  induction n generalizing s with
  | zero =>
    refine .done (fun _ _ _ hv => nomatch hv) fun rest => ⟨fun h => ?_, fun h => ?_⟩
    · cases h
      rfl
    · rw [h]
      exact .noElem
  | succ n ih =>
    refine ((helem s).bind (A := Fits stack (.elems tag n)) (M := Reads (.elems tag n))
      fun v s' _ => (ih s').map _).congr fits_elems fun rest => ⟨fun h => ?_, ?_⟩
    · cases h with
      | elem hfirst helems => exact ⟨_, hfirst, helems⟩
    · rintro ⟨mid, hfirst, helems⟩
      exact .elem hfirst helems

theorem meets_entries {stack : Nat} {readChild : UInt8 → Stream → Read NbtValue}
    (hchild : ∀ tag s, Meets (readChild tag s) s (Fits stack (.payload tag) s.rest)
      (Reads (.payload tag) s.rest)) (rounds : Nat) (entries : List (List UInt8 × NbtValue))
    (s : Stream) (hrounds : s.rest.length < rounds) :
    Meets (readEntries readChild rounds entries s) s (Fits stack .entries s.rest)
      (Reads .entries s.rest) := by
  induction rounds generalizing entries s with
  | zero => cases hrounds
  | succ rounds ih =>
    apply Meets.parse
    · intro tag bs₁ htype
      split_ifs with htag
      · subst htag
        refine .done ?_ fun rest => ⟨fun h => ?_, fun h => ?_⟩
        · intro d t bs' hv
          cases hv with
          | entry htype' htag' =>
            cases htype.symm.trans htype'
            exact absurd rfl htag'
          | laterEntry htype' htag' =>
            cases htype.symm.trans htype'
            exact absurd rfl htag'
        · cases h with
          | close htype' =>
            cases htype.symm.trans htype'
            rfl
          | entry htype' htag' =>
            cases htype.symm.trans htype'
            exact absurd rfl htag'
        · rw [h]
          exact .close htype
      · apply Meets.parse
        · intro name bs₂ hname
          refine ((hchild tag _).bind (A := Fits stack .entries) (M := Reads .entries)
            fun v s' hr => ih _ s' ?_).congr (fits_entries htype htag hname)
            fun rest => ⟨fun h => ?_, ?_⟩
          · -- Each round takes at least the byte of its type.
            have hle := ((hchild tag _).sound v s' hr).length_le
            have hlt := parseByte_length htype
            have hle' := parseString_length hname
            dsimp only at hle hle'
            omega
          · cases h with
            | close htype' =>
              cases htype.symm.trans htype'
              exact absurd rfl htag
            | entry htype' _ hname' hchild' hentries =>
              cases htype.symm.trans htype'
              cases hname.symm.trans hname'
              exact ⟨_, hchild', hentries⟩
          · rintro ⟨mid, hmid, hentries⟩
            exact .entry htype htag hname hmid hentries
        · intro msg rest hname
          refine ⟨fun d t bs' hv => ?_, fun rest' h => ?_⟩
          · cases hv with
            | entry htype' _ hname' =>
              cases htype.symm.trans htype'
              cases hname.symm.trans hname'
            | laterEntry htype' _ hname' =>
              cases htype.symm.trans htype'
              cases hname.symm.trans hname'
          · cases h with
            | close htype' =>
              cases htype.symm.trans htype'
              exact htag rfl
            | entry htype' _ hname' =>
              cases htype.symm.trans htype'
              cases hname.symm.trans hname'
    · intro msg rest htype
      refine ⟨fun d t bs' hv => ?_, fun rest' h => ?_⟩
      · cases hv with
        | entry htype' => cases htype.symm.trans htype'
        | laterEntry htype' => cases htype.symm.trans htype'
      · cases h with
        | close htype' => cases htype.symm.trans htype'
        | entry htype' => cases htype.symm.trans htype'

/-! ## A payload -/

theorem fits_plain {stack : Nat} {tag : UInt8} {bs : List UInt8} (hlist : tag ≠ tagList)
    (hcompound : tag ≠ tagCompound) : Fits (stack + 1) (.payload tag) bs := by
  intro d t bs' hv
  cases hv with
  | here => exact ⟨Nat.succ_pos stack, fun h => absurd h hlist⟩
  | list => exact absurd rfl hlist
  | compound => exact absurd rfl hcompound

theorem reads_plain {tag : UInt8} {bs rest : List UInt8} (hlist : tag ≠ tagList)
    (hcompound : tag ≠ tagCompound) :
    Reads (.payload tag) bs rest ↔ skipPlain tag bs = some rest := by
  refine ⟨fun h => ?_, .plain⟩
  cases h with
  | plain hskip => exact hskip
  | list => exact absurd rfl hlist
  | compound => exact absurd rfl hcompound

theorem meets_plain {stack : Nat} {tag : UInt8} {p : Parse α} (hp : skipPlain tag = p.skip)
    (hlist : tag ≠ tagList) (hcompound : tag ≠ tagCompound) (f : α → β) (s : Stream) :
    Meets ((p.read s).bind fun v s => .ok (f v) s) s (Fits (stack + 1) (.payload tag) s.rest)
      (Reads (.payload tag) s.rest) := by
  apply Meets.parse
  · intro v rest hv
    refine .done (fits_plain hlist hcompound) fun rest' => ?_
    rw [reads_plain hlist hcompound, hp, skip_eq_some, hv]
    constructor
    · rintro ⟨_, ⟨⟩⟩
      rfl
    · rintro rfl
      exact ⟨v, rfl⟩
  · intro msg rest hmsg
    refine ⟨fits_plain hlist hcompound, fun rest' h => ?_⟩
    rw [reads_plain hlist hcompound, hp, skip_eq_some, hmsg] at h
    obtain ⟨_, ⟨⟩⟩ := h

theorem meets_payload (stack : Nat) (tag : UInt8) (s : Stream) :
    Meets (readPayload stack tag s) s (Fits stack (.payload tag) s.rest)
      (Reads (.payload tag) s.rest) := by
  induction stack generalizing tag s with
  | zero =>
    have hnot : ¬ Fits 0 (.payload tag) s.rest := fun h => absurd (h 0 tag _ .here).1 (Nat.lt_irrefl 0)
    exact ⟨⟨nofun, fun h => hnot h.2⟩, nofun, fun h => absurd h hnot⟩
  | succ stack ih =>
    unfold readPayload
    split
    · exact meets_plain rfl (by decide) (by decide) _ s
    · exact meets_plain rfl (by decide) (by decide) _ s
    · exact meets_plain rfl (by decide) (by decide) _ s
    · exact meets_plain rfl (by decide) (by decide) _ s
    · exact meets_plain rfl (by decide) (by decide) _ s
    · exact meets_plain rfl (by decide) (by decide) _ s
    · exact meets_plain rfl (by decide) (by decide) _ s
    · exact meets_plain rfl (by decide) (by decide) _ s
    · apply Meets.parse
      · rintro ⟨elemType, n⟩ mid hheader
        dsimp only
        split_ifs with hn
        · have hnot : ¬ Fits (stack + 1) (.payload tagList) s.rest := by
            rw [fits_list hheader]
            omega
          exact ⟨⟨nofun, fun h => hnot h.2⟩, nofun, fun h => absurd h hnot⟩
        have helems := meets_elems (ih elemType) n.toNat
          ⟨mid, ⟨n, mid.length⟩ :: s.allocs⟩
        have hmeets := helems.map NbtValue.list
        refine ⟨?_, fun v s' hr => ?_, fun hfits rest hrest => ?_⟩
        · change _ ↔ _ ∧ Fits (stack + 1) (.payload tagList) s.rest
          rw [fits_list hheader, ← and_assoc]
          refine hmeets.good.trans (and_congr_left' ?_)
          exact (List.forall_mem_cons).trans and_comm
        · exact .list hheader (Int.not_lt.1 hn) (hmeets.sound v s' hr)
        · refine hmeets.complete ((fits_list hheader).1 hfits).2 rest ?_
          cases hrest with
          | plain hskip => cases hskip
          | list hheader' _ helems =>
            cases hheader.symm.trans hheader'
            exact helems
      · intro msg rest hmsg
        refine ⟨fun d t bs' hv => ?_, fun rest' h => ?_⟩
        · cases hv with
          | here =>
            refine ⟨Nat.succ_pos stack, fun _ _ _ _ hheader => ?_⟩
            cases hmsg.symm.trans hheader
          | list hheader => cases hmsg.symm.trans hheader
        · cases h with
          | plain hskip => cases hskip
          | list hheader => cases hmsg.symm.trans hheader
    · refine ((meets_entries ih _ [] s (Nat.lt_succ_self _)).map NbtValue.compound).congr
        fits_compound fun rest => ⟨fun h => ?_, .compound⟩
      cases h with
      | plain hskip => cases hskip
      | compound hentries => exact hentries
    · exact meets_plain rfl (by decide) (by decide) _ s
    · exact meets_plain rfl (by decide) (by decide) _ s
    · next hbyte hshort hint hlong hfloat hdouble hbytes hstring hlist hcompound hints hlongs =>
      have hskip : skipPlain tag = fun _ => none := by
        unfold skipPlain
        split <;> first | rfl | contradiction
      refine ⟨⟨fun h => ⟨h, fits_plain hlist hcompound⟩, And.left⟩, nofun, fun _ rest h => ?_⟩
      rw [reads_plain hlist hcompound, hskip] at h
      cases h

/-! ## A file -/

/-- The type of a file's one tag, past its name. -/
def parseRoot : Parse UInt8 := fun bs =>
  match parseByte bs with
  | (.error msg, rest) => (.error msg, rest)
  | (.ok tagType, rest) =>
    if tagType = tagEnd then (.ok tagEnd, rest)
    else ((parseSkipString rest).1.map fun _ => tagType, (parseSkipString rest).2)

/-- The reader ends with a value or an error, and never asks for slots the stream cannot fill,
exactly when every payload it comes to is within the stack and every list's length is between zero
and what is left of the stream. -/
theorem readNamedTag_good (stack : Nat) (bs : List UInt8) :
    (readNamedTag stack ⟨bs, []⟩).Good ↔
      ∀ tag rest, parseRoot bs = (.ok tag, rest) → tag ≠ tagEnd →
        Fits stack (.payload tag) rest := by
  have hgood : ∀ rest, (⟨rest, []⟩ : Stream).Good := fun _ _ h => nomatch h
  unfold readNamedTag parseRoot Parse.read
  dsimp only
  cases htype : parseByte bs with
  | mk r rest =>
    cases r with
    | error msg => exact ⟨fun _ => nofun, fun _ => hgood rest⟩
    | ok tag =>
      dsimp only [Read.bind]
      split_ifs with htag
      · refine ⟨fun _ tag' rest' h hne => ?_, fun _ => hgood rest⟩
        cases h
        exact absurd rfl hne
      · cases hname : parseSkipString rest with
        | mk r rest₁ =>
          cases r with
          | error msg => exact ⟨fun _ => nofun, fun _ => hgood rest₁⟩
          | ok _ =>
            have hmeets := meets_payload stack tag ⟨rest₁, []⟩
            constructor
            · intro h tag' rest' hroot _
              cases hroot
              exact (hmeets.good.1 h).2
            · intro h
              exact hmeets.good.2 ⟨hgood rest₁, h tag rest₁ rfl htag⟩

/-- The stream a read ends with. -/
def Read.stream {α : Type} : Read α → Stream
  | .ok _ s => s
  | .err _ s => s
  | .crash s => s

/-- A root list of numbers that states a negative length crashes the reader, however much stack it
has. Slots for two thousand million numbers are made of a file that ends there. -/
theorem negative_list_crashes :
    (∀ stack, ¬ (readNamedTag stack ⟨[9, 0, 0, 3, 255, 255, 255, 255], []⟩).Good) ∧
      (readNamedTag 1 ⟨[9, 0, 0, 3, 255, 255, 255, 255], []⟩).stream.allocs = [⟨-1, 0⟩] ∧
      (readNamedTag 2 ⟨[9, 0, 0, 3, 127, 255, 255, 255], []⟩).stream.allocs =
        [⟨2147483647, 0⟩] := by
  refine ⟨fun stack h => ?_, by decide +kernel, by decide +kernel⟩
  cases stack with
  | zero => exact h
  | succ stack => exact h

end Konnekt.Worlds
