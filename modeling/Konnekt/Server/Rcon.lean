import Konnekt.Go.Reader
import Konnekt.Go.Value
import Mathlib.Data.BitVec

/-!
# Framing of the remote console

A packet is a length, an id and a type of four little-endian bytes each, a body and two
zero bytes; the length counts all but itself. What is written is read back, whatever the
pieces are in which it arrives, while the whole packet is within the reader's bound.
-/

namespace Konnekt.Server

open Go

/-- `maxRconBody`. -/
def maxRconBody : Nat := 2 ^ 20

/-! ## Fields of four bytes -/

/-- `binary.LittleEndian.PutUint32`, the four bytes it puts. -/
def littleEndianBytes (v : BitVec 32) : List UInt8 :=
  [UInt8.ofNat v.toNat, UInt8.ofNat (v.toNat / 256), UInt8.ofNat (v.toNat / 65536),
    UInt8.ofNat (v.toNat / 16777216)]

/-- `binary.LittleEndian.Uint32`. -/
def littleEndian : List UInt8 → Outcome (BitVec 32)
  | b₀ :: b₁ :: b₂ :: b₃ :: _ =>
    .ok (BitVec.ofNat 32
      (b₀.toNat + b₁.toNat * 256 + b₂.toNat * 65536 + b₃.toNat * 16777216))
  | _ => .panic "index out of range"

@[simp] theorem littleEndian_append (v : BitVec 32) (rest : List UInt8) :
    littleEndian (littleEndianBytes v ++ rest) = .ok v := by
  have hlt := v.isLt
  apply congrArg Outcome.ok
  apply BitVec.eq_of_toNat_eq
  simp only [BitVec.toNat_ofNat, UInt8.toNat_ofNat']
  omega

@[simp] theorem length_littleEndianBytes (v : BitVec 32) : (littleEndianBytes v).length = 4 := rfl

/-- `buf[off:]` with four bytes put at its start. -/
def putUint32 (buf : List UInt8) (off : Nat) (v : BitVec 32) : Outcome (List UInt8) :=
  if off + 4 ≤ buf.length then .ok (buf.take off ++ littleEndianBytes v ++ buf.drop (off + 4))
  else .panic "index out of range"

/-- `copy(buf[off:], data)`. -/
def copyAt (buf : List UInt8) (off : Nat) (data : List UInt8) : Outcome (List UInt8) :=
  if off ≤ buf.length then
    .ok (buf.take off ++ data.take (buf.length - off) ++ buf.drop (off + data.length))
  else .panic "slice bounds out of range"

/-! ## Packets -/

/-- The length `writePacket` puts in front: an `int32` of the sum. -/
def packetLength (payload : List UInt8) : BitVec 32 := BitVec.ofNat 32 (4 + 4 + payload.length + 2)

/-- `make([]byte, n)` of an `int32`. -/
def makeBytes (n : BitVec 32) : Outcome (List UInt8) :=
  if 0 ≤ n.toInt then .ok (List.replicate n.toInt.toNat 0)
  else .panic "makeslice: len out of range"

/-- `writePacket` up to the write: the bytes it hands to the connection. -/
def writePacket (id ptype : BitVec 32) (payload : List UInt8) : Outcome (List UInt8) :=
  if maxRconBody < payload.length then
    .err ("rcon: body of " ++ toString payload.length ++ " bytes exceeds the " ++
      toString maxRconBody ++ " byte limit")
  else do
    let buf ← makeBytes (4 + packetLength payload)
    let buf ← putUint32 buf 0 (packetLength payload)
    let buf ← putUint32 buf 4 id
    let buf ← putUint32 buf 8 ptype
    copyAt buf 12 payload

/-- What a reading end of a connection may report. -/
def endText : ReadEnd → String
  | .full => ""
  | .eof => "EOF"
  | .unexpectedEOF => "unexpected EOF"
  | .failed => "read failed"

/-- `readFull`: one read after the other, until there are enough bytes or an error. -/
def readFull (n : Nat) (conn : Reader) : Outcome (List UInt8) × Reader :=
  if n = 0 then (.ok [], conn)
  else if conn.rest = [] then (.err (endText (if conn.broken then .failed else .eof)), conn)
  else
    let (data, next) := conn.read n
    let (more, last) := readFull (n - (conn.read n).1.length) next
    (more >>= fun more => .ok (data ++ more), last)
termination_by n
decreasing_by
  have := Reader.length_read_pos ‹¬n = 0› ‹¬conn.rest = []›
  omega

/-- A packet as `readPacket` gives it. -/
structure Packet where
  id : BitVec 32
  ptype : BitVec 32
  body : List UInt8
  deriving DecidableEq, Repr

/-- What `readPacket` makes of the bytes behind the length. -/
def packetOf (data : List UInt8) : Outcome Packet := do
  let id ← littleEndian (data.take 4)
  let ptype ← littleEndian ((data.drop 4).take 4)
  .ok ⟨id, ptype, (data.take (data.length - 2)).drop 8⟩

/-- `readPacket`. -/
def readPacket (conn : Reader) : Outcome Packet × Reader :=
  match conn.readFull 4 with
  | (field, .full, conn) =>
    match littleEndian field with
    | .ok length =>
      if length.toInt < 10 ∨ 4096 < length.toInt then
        (.err ("rcon: suspicious packet length " ++ toString length.toInt), conn)
      else
        ((readFull length.toInt.toNat conn).1 >>= packetOf,
          (readFull length.toInt.toNat conn).2)
    | .err e => (.err e, conn)
    | .panic e => (.panic e, conn)
  | (_, stop, conn) => (.err (endText stop), conn)

/-! ## Writing -/

/-- Four bytes are put in front of the zeros. -/
theorem putUint32_append {pre : List UInt8} {off : Nat} (h : pre.length = off) (m : Nat)
    (v : BitVec 32) : putUint32 (pre ++ List.replicate (m + 4) 0) off v =
      .ok ((pre ++ littleEndianBytes v) ++ List.replicate m 0) := by
  have hfits : off + 4 ≤ (pre ++ List.replicate (m + 4) (0 : UInt8)).length := by
    rw [List.length_append, List.length_replicate]
    omega
  rw [putUint32, if_pos hfits, ← h, List.take_left, List.drop_append, List.drop_replicate]
  simp

theorem copyAt_append {pre data : List UInt8} {off : Nat} (h : pre.length = off) (m : Nat) :
    copyAt (pre ++ List.replicate (data.length + m) 0) off data =
      .ok ((pre ++ data) ++ List.replicate m 0) := by
  have hfits : off ≤ (pre ++ List.replicate (data.length + m) (0 : UInt8)).length := by
    rw [List.length_append]
    omega
  have hroom : data.length ≤
      (pre ++ List.replicate (data.length + m) (0 : UInt8)).length - off := by
    rw [List.length_append, List.length_replicate]
    omega
  rw [copyAt, if_pos hfits, List.take_of_length_le hroom, ← h, List.take_left, List.drop_append,
    List.drop_replicate]
  simp

section

variable {body : List UInt8} (h : body.length ≤ maxRconBody)

include h

/-- The length of a body that is accepted neither wraps nor is negative. -/
theorem toInt_packetLength : (packetLength body).toInt = body.length + 10 := by
  rw [maxRconBody] at h
  rw [packetLength, BitVec.toInt_ofNat', Int.bmod_eq_of_le] <;> omega

theorem toInt_bufferLength : (4 + packetLength body).toInt = body.length + 14 := by
  have hsum : 4 + packetLength body = BitVec.ofNat 32 (4 + (4 + 4 + body.length + 2)) :=
    (BitVec.ofNat_add _ _).symm
  rw [maxRconBody] at h
  rw [hsum, BitVec.toInt_ofNat', Int.bmod_eq_of_le] <;> omega

theorem makeBytes_bufferLength :
    makeBytes (4 + packetLength body) = .ok (List.replicate (body.length + 14) 0) := by
  rw [makeBytes, toInt_bufferLength h, if_pos (by omega)]
  rfl

theorem writePacket_eq (id ptype : BitVec 32) :
    writePacket id ptype body = .ok (littleEndianBytes (packetLength body) ++
      (littleEndianBytes id ++ (littleEndianBytes ptype ++ (body ++ [0, 0])))) := by
  have hlength : putUint32 (List.replicate (body.length + 14) 0) 0 (packetLength body) =
      .ok (littleEndianBytes (packetLength body) ++ List.replicate (body.length + 10) 0) :=
    @putUint32_append [] 0 rfl (body.length + 10) _
  have hid : putUint32 (littleEndianBytes (packetLength body) ++
      List.replicate (body.length + 10) 0) 4 id = .ok ((littleEndianBytes (packetLength body) ++
        littleEndianBytes id) ++ List.replicate (body.length + 6) 0) :=
    putUint32_append rfl (body.length + 6) id
  have hptype : putUint32 ((littleEndianBytes (packetLength body) ++ littleEndianBytes id) ++
      List.replicate (body.length + 6) 0) 8 ptype =
        .ok (((littleEndianBytes (packetLength body) ++ littleEndianBytes id) ++
          littleEndianBytes ptype) ++ List.replicate (body.length + 2) 0) :=
    putUint32_append rfl (body.length + 2) ptype
  have hbody : copyAt (((littleEndianBytes (packetLength body) ++ littleEndianBytes id) ++
      littleEndianBytes ptype) ++ List.replicate (body.length + 2) 0) 12 body =
        .ok ((((littleEndianBytes (packetLength body) ++ littleEndianBytes id) ++
          littleEndianBytes ptype) ++ body) ++ List.replicate 2 0) :=
    copyAt_append rfl 2
  rw [writePacket, if_neg (Nat.not_lt.2 h), makeBytes_bufferLength h, Outcome.ok_bind, hlength,
    Outcome.ok_bind, hid, Outcome.ok_bind, hptype, Outcome.ok_bind, hbody]
  simp only [List.append_assoc]
  rfl

end

/-! ## Reading -/

theorem readFull_eq {n : Nat} {conn : Reader} (h : n ≤ conn.rest.length) :
    ∃ cuts, readFull n conn = (.ok (conn.rest.take n), ⟨conn.rest.drop n, cuts, conn.broken⟩) := by
  fun_induction readFull n conn with
  | case1 conn => exact ⟨conn.cuts, by simp⟩
  | case2 n conn hn hrest =>
    rw [hrest] at h
    simp at h
    omega
  | case3 n conn hn hrest data next hread more last hmore ih =>
    obtain ⟨k, hkn, hk, heq⟩ := Reader.read_eq n conn
    obtain ⟨rfl, rfl⟩ := Prod.mk.inj (hread.symm.trans heq)
    have hlength : (conn.read n).1.length = k := by
      rw [heq, List.length_take]
      omega
    rw [hlength] at ih
    have hleft : n - k ≤ (conn.rest.drop k).length := by
      rw [List.length_drop]
      omega
    obtain ⟨cuts, ih⟩ := ih hleft
    rw [hlength] at hmore
    obtain ⟨rfl, rfl⟩ := Prod.mk.inj (hmore.symm.trans ih)
    refine ⟨cuts, ?_⟩
    rw [Outcome.ok_bind, ← List.take_add, List.drop_drop, Nat.add_sub_cancel' hkn]

theorem packetOf_append (id ptype : BitVec 32) (body : List UInt8) :
    packetOf (littleEndianBytes id ++ (littleEndianBytes ptype ++ (body ++ [0, 0]))) =
      .ok ⟨id, ptype, body⟩ := by
  have hid := littleEndian_append id []
  have hptype := littleEndian_append ptype []
  have hlength : (littleEndianBytes id ++ (littleEndianBytes ptype ++ (body ++ [0, 0]))).length -
      2 = body.length + 8 := by
    simp
    omega
  have htake : (littleEndianBytes id ++ (littleEndianBytes ptype ++ (body ++ [0, 0]))).take
      (body.length + 8) = littleEndianBytes id ++ (littleEndianBytes ptype ++ body) := by
    have hcut : littleEndianBytes id ++ (littleEndianBytes ptype ++ (body ++ [0, 0])) =
        (littleEndianBytes id ++ (littleEndianBytes ptype ++ body)) ++ [0, 0] := by
      simp only [List.append_assoc]
    rw [hcut]
    apply List.take_left'
    simp
    omega
  rw [List.append_nil] at hid hptype
  rw [packetOf, hlength, htake]
  change (littleEndian (littleEndianBytes id) >>= fun id =>
    littleEndian (littleEndianBytes ptype) >>= fun ptype => .ok (Packet.mk id ptype body)) = _
  rw [hid, hptype]
  rfl

/-- Where the length of a packet has been read, the rest of it is taken or refused whole. -/
theorem readPacket_append {length : BitVec 32} {rest : List UInt8} (cuts : List Nat)
    (broken : Bool) : ∃ cuts', readPacket ⟨littleEndianBytes length ++ rest, cuts, broken⟩ =
      if length.toInt < 10 ∨ 4096 < length.toInt then
        (.err ("rcon: suspicious packet length " ++ toString length.toInt),
          ⟨rest, cuts', broken⟩)
      else
        ((readFull length.toInt.toNat ⟨rest, cuts', broken⟩).1 >>= packetOf,
          (readFull length.toInt.toNat ⟨rest, cuts', broken⟩).2) := by
  obtain ⟨cuts', heq⟩ := Reader.readFull_eq 4 ⟨littleEndianBytes length ++ rest, cuts, broken⟩
  have hfull : Reader.endOf 4 ⟨littleEndianBytes length ++ rest, cuts, broken⟩ = .full := by
    rw [Reader.endOf, if_pos]
    simp
  have hfield := littleEndian_append length []
  rw [List.append_nil] at hfield
  refine ⟨cuts', ?_⟩
  rw [readPacket, heq, hfull]
  have htake : (littleEndianBytes length ++ rest).take 4 = littleEndianBytes length := rfl
  have hdrop : (littleEndianBytes length ++ rest).drop 4 = rest := rfl
  simp only [htake, hdrop, hfield]

theorem writePacket_of_long {id ptype : BitVec 32} {body : List UInt8}
    (h : maxRconBody < body.length) : writePacket id ptype body =
      .err ("rcon: body of " ++ toString body.length ++ " bytes exceeds the " ++
        toString maxRconBody ++ " byte limit") :=
  if_pos h

/-- A packet is read back for what was written, in any pieces and with anything behind it, and
no byte of what is behind it is taken, exactly when its body is within 4086 bytes. A longer body
is refused as soon as its length is read. -/
theorem readPacket_writePacket {id ptype : BitVec 32} {body packet : List UInt8}
    (h : writePacket id ptype body = .ok packet) :
    (packetLength body).toInt = body.length + 10 ∧ packet.length = body.length + 14 ∧
      ∀ (rest : List UInt8) (cuts : List Nat) (broken : Bool), ∃ cuts',
        readPacket ⟨packet ++ rest, cuts, broken⟩ =
          if body.length ≤ 4086 then (.ok ⟨id, ptype, body⟩, ⟨rest, cuts', broken⟩)
          else (.err ("rcon: suspicious packet length " ++ toString ((body.length : Int) + 10)),
            ⟨packet.drop 4 ++ rest, cuts', broken⟩) := by
  have hbody : body.length ≤ maxRconBody := by
    by_contra hlong
    rw [writePacket_of_long (Nat.lt_of_not_le hlong)] at h
    cases h
  rw [writePacket_eq hbody] at h
  obtain rfl := Outcome.ok.inj h
  have hlength := toInt_packetLength hbody
  refine ⟨hlength, by simp; omega, fun rest cuts broken => ?_⟩
  generalize hdata : littleEndianBytes id ++ (littleEndianBytes ptype ++ (body ++ [0, 0])) = data
  have hsize : data.length = body.length + 10 := by
    rw [← hdata]
    simp
    omega
  obtain ⟨cuts', heq⟩ := @readPacket_append (packetLength body) (data ++ rest) cuts
    broken
  rw [List.append_assoc, heq, hlength]
  by_cases hshort : body.length ≤ 4086
  · have hin : ¬ ((body.length : Int) + 10 < 10 ∨ 4096 < (body.length : Int) + 10) := by omega
    have hnat : ((body.length : Int) + 10).toNat = data.length := by omega
    obtain ⟨cuts'', hread⟩ := @readFull_eq data.length ⟨data ++ rest, cuts', broken⟩ (by simp)
    refine ⟨cuts'', ?_⟩
    rw [if_neg hin, if_pos hshort, hnat, hread, List.take_left, List.drop_left, Outcome.ok_bind,
      ← hdata, packetOf_append]
  · have hout : (body.length : Int) + 10 < 10 ∨ 4096 < (body.length : Int) + 10 := by omega
    refine ⟨cuts', ?_⟩
    rw [if_pos hout, if_neg hshort]
    rfl

/-- A command is read back from single bytes. -/
theorem readPacket_writePacket_list : ∃ cuts', readPacket
    ⟨[14, 0, 0, 0, 7, 0, 0, 0, 2, 0, 0, 0, 0x6c, 0x69, 0x73, 0x74, 0, 0] ++ [1],
      List.replicate 19 0, false⟩ =
      (.ok ⟨7, 2, [0x6c, 0x69, 0x73, 0x74]⟩, ⟨[1], cuts', false⟩) :=
  (readPacket_writePacket (show writePacket 7 2 [0x6c, 0x69, 0x73, 0x74] = .ok _ from by
    decide +kernel)).2.2 [1] (List.replicate 19 0) false

/-- A full reply of 4096 bytes is not read back. -/
theorem not_readPacket_full : ¬ ∀ (id ptype : BitVec 32) (body : List UInt8),
    body.length ≤ 4096 → ∃ packet, writePacket id ptype body = .ok packet ∧
      (readPacket ⟨packet, [], false⟩).1 = .ok ⟨id, ptype, body⟩ := by
  intro h
  have hlong : (List.replicate 4096 (0 : UInt8)).length = 4096 := List.length_replicate
  generalize List.replicate 4096 (0 : UInt8) = body at hlong
  obtain ⟨packet, hwrite, hread⟩ := h 1 0 body hlong.le
  have hbody : body.length ≤ maxRconBody := by
    rw [hlong]
    decide
  rw [writePacket_eq hbody] at hwrite
  obtain rfl := Outcome.ok.inj hwrite
  obtain ⟨cuts', heq⟩ := @readPacket_append (packetLength body)
    (littleEndianBytes 1 ++ (littleEndianBytes 0 ++ (body ++ [0, 0]))) [] false
  rw [heq, toInt_packetLength hbody, hlong, if_pos (by decide)] at hread
  cases hread

end Konnekt.Server
