import Pigeon.Octets

/-!
Messages on a stream (`webtransport.go`): a four-octet length, most significant
octet first, then the payload, of at most 1 MiB. The first message on a stream
that a peer opens is its header (`wire_gen.go`), the name of the stream behind a
varint of its length.
-/
namespace Pigeon.Framing
open Octets List

def maxMessageSize : Nat := 1048576

def frame (data : Bytes) : Bytes := be 4 data.length ++ data

def writeMessage (data : Bytes) : Option Bytes :=
  if maxMessageSize < data.length then none else some (frame data)

/-- What is left of the stream, and the message or an error. A stream that ends early is used up. -/
def readMessage (stream : Bytes) : Bytes × Option Bytes :=
  if stream.length < 4 then ([],none)
  else if maxMessageSize < ofBe (stream.take 4) then (stream.drop 4,none)
  else if (stream.drop 4).length < ofBe (stream.take 4) then ([],none)
  else ((stream.drop 4).drop (ofBe (stream.take 4)),some ((stream.drop 4).take (ofBe (stream.take 4))))

theorem writeMessage_eq_some {data octets} :
    writeMessage data = some octets ↔ data.length ≤ maxMessageSize ∧ octets = frame data := by
  unfold writeMessage
  split
  · simp; omega
  · simp only [Option.some.injEq]
    constructor
    · rintro rfl; exact ⟨by omega,rfl⟩
    · rintro ⟨-,rfl⟩; rfl

theorem ofBe_frame {data} (small : data.length ≤ maxMessageSize) (rest : Bytes) :
    ofBe ((frame data ++ rest).take 4) = data.length := by
  have front : (frame data ++ rest).take 4 = be 4 data.length := by
    rw [frame,append_assoc,take_append_of_le_length (by simp),take_of_length_le (by simp)]
  have limit : data.length < 256 ^ 4 := by unfold maxMessageSize at small; omega
  rw [front,ofBe_be,Nat.mod_eq_of_lt limit]

theorem readMessage_frame {data} (small : data.length ≤ maxMessageSize) (rest : Bytes) :
    readMessage (frame data ++ rest) = (rest,some data) := by
  have back : (frame data ++ rest).drop 4 = data ++ rest := by
    rw [frame,append_assoc,drop_append_of_le_length (by simp),drop_of_length_le (by simp),nil_append]
  have long : ¬ (frame data ++ rest).length < 4 := by simp [frame]
  rw [readMessage,if_neg long,ofBe_frame small,if_neg (Nat.not_lt.mpr small),back,if_neg (by simp)]
  simp

theorem length_of_readMessage {stream data} (read : (readMessage stream).2 = some data) :
    data.length ≤ maxMessageSize := by
  unfold readMessage at read
  split at read
  · cases read
  · split at read
    · cases read
    · split at read
      · cases read
      · rename_i within _
        rw [← Option.some.inj read,length_take]
        omega

def putUvarint : Nat → Nat → Bytes
  | 0, n => [UInt8.ofNat n]
  | fuel + 1, n => if n < 128 then [UInt8.ofNat n] else UInt8.ofNat (n % 128 + 128) :: putUvarint fuel (n / 128)

def getUvarint : Nat → Nat → Bytes → Option (Nat × Bytes)
  | _, _, [] => none
  | i, value, b :: rest =>
    if i = 10 then none
    else if b.toNat < 128 then
      if i = 9 ∧ 1 < b.toNat then none else some (value + b.toNat * 128 ^ i,rest)
    else getUvarint (i + 1) (value + (b.toNat - 128) * 128 ^ i) rest

theorem length_putUvarint_le (fuel n : Nat) : (putUvarint fuel n).length ≤ fuel + 1 := by
  induction fuel generalizing n with
  | zero => rfl
  | succ fuel ih =>
    rw [putUvarint]
    split
    next => simp
    next => exact Nat.succ_le_succ (ih _)

theorem getUvarint_putUvarint {fuel i} (width : i + fuel = 9) {n} (small : n * 128 ^ i < 2 ^ 64) (value : Nat)
    (rest : Bytes) : getUvarint i value (putUvarint fuel n ++ rest) = some (value + n * 128 ^ i,rest) := by
  induction fuel generalizing i n value with
  | zero =>
    cases width
    have bit : n ≤ 1 := by norm_num at small; omega
    have octet : (UInt8.ofNat n).toNat = n := by rw [UInt8.toNat_ofNat']; omega
    have low : n < 128 := by omega
    simp [putUvarint,getUvarint,octet,low,bit]
  | succ fuel ih =>
    have inside : i ≠ 10 := by omega
    have early : i ≠ 9 := by omega
    rw [putUvarint]
    split
    next low =>
      have octet : (UInt8.ofNat n).toNat = n := by rw [UInt8.toNat_ofNat']; omega
      simp [getUvarint,octet,low,inside,early]
    next high =>
      have octet : (UInt8.ofNat (n % 128 + 128)).toNat = n % 128 + 128 := by rw [UInt8.toNat_ofNat']; omega
      have parts : n % 128 * 128 ^ i + n / 128 * 128 ^ (i + 1) = n * 128 ^ i := by
        have whole := Nat.mod_add_div n 128
        calc n % 128 * 128 ^ i + n / 128 * 128 ^ (i + 1) = (n % 128 + 128 * (n / 128)) * 128 ^ i := by ring
          _ = n * 128 ^ i := by rw [whole]
      have later := ih (i := i + 1) (by omega) (n := n / 128) (by omega) (value + n % 128 * 128 ^ i)
      rw [cons_append,getUvarint,if_neg inside,octet,if_neg (by omega),Nat.add_sub_cancel,later,Nat.add_assoc,parts]

theorem length_of_getUvarint {i value n octets rest} (read : getUvarint i value octets = some (n,rest)) :
    rest.length < octets.length := by
  induction octets generalizing i value with
  | nil => cases read
  | cons b more ih =>
    rw [getUvarint] at read
    split_ifs at read
    · cases read
      exact Nat.lt_succ_self _
    · exact Nat.lt_succ_of_lt (ih read)

def encodeStreamHeader (name : Bytes) : Bytes := putUvarint 9 name.length ++ name

def decodeStreamHeader (buf : Bytes) : Option Bytes :=
  match getUvarint 0 0 buf with
  | none => none
  | some (length,rest) => if rest.length < length then none else some (rest.take length)

def uvarintDecode : Nat → Nat → Bytes → Option (Nat × Bytes)
  | _, _, [] => none
  | i, value, b :: rest =>
    if i = 9 ∧ 1 < b.toNat then none
    else if b.toNat < 128 then some (value + b.toNat * 128 ^ i,rest)
    else if 64 ≤ 7 * (i + 1) then none
    else uvarintDecode (i + 1) (value + (b.toNat - 128) * 128 ^ i) rest

/-- `pigeon_wire_stream_header_encode`. -/
def wireStreamHeaderEncode (name : Bytes) (outLen : Nat) : Option Bytes :=
  if outLen < (encodeStreamHeader name).length then none else some (encodeStreamHeader name)

/-- `pigeon_wire_stream_header_decode` into a buffer of `nameBufLen` octets, which takes the name and a NUL. -/
def wireStreamHeaderDecode (buf : Bytes) (nameBufLen : Nat) : Option Bytes :=
  match uvarintDecode 0 0 buf with
  | none => none
  | some (length,rest) =>
    if rest.length < length then none
    else if nameBufLen < length + 1 then none
    else some (rest.take length)

end Pigeon.Framing
