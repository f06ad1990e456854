import Pigeon.GoSession

/-!
What the receiving end of a stream makes of the packets on it. A strict channel
that is fed packets of its key accepts all of them just when their numbers count
up from the one it expects (`accepts_all_iff`). A Go stream reads its packets
off the octets that the peer wrote, one message for each `Recv`
(`recvAll_frames`).
-/
namespace Pigeon.Delivery
open Octets Runs Sequence Sealing Crypto Framing List
open GoSession (cwireDecrypt)

theorem countsFrom_positions {n positions} (room : n + positions.length ≤ 2 ^ 64)
    (below : ∀ i ∈ positions, i < 2 ^ 64) :
    CountsFrom (· + 1) (UInt64.ofNat n) (positions.map UInt64.ofNat) ↔ positions = range' n positions.length := by
  induction positions generalizing n with
  | nil => simp [CountsFrom]
  | cons i rest ih =>
    obtain ⟨belowFirst,belowRest⟩ := forall_mem_cons.mp below
    rw [length_cons] at room
    have later := ih (n := n + 1) (by omega) belowRest
    rw [map_cons,CountsFrom,ofNat_succ,later,length_cons,range'_succ,cons.injEq]
    constructor
    · rintro ⟨same,consecutive⟩
      exact ⟨ofNat_inj_below belowFirst (by omega) same,consecutive⟩
    · rintro ⟨rfl,consecutive⟩
      exact ⟨rfl,consecutive⟩

theorem countsFrom_snoc {n numbers} (counts : CountsFrom (· + 1) n numbers) :
    CountsFrom (· + 1) n (numbers ++ [n + UInt64.ofNat numbers.length]) := by
  induction numbers generalizing n with
  | nil => exact ⟨by simp,trivial⟩
  | cons m rest ih =>
    refine ⟨counts.1,?_⟩
    have later := ih counts.2
    rw [length_cons,Nat.add_comm rest.length 1,UInt64.ofNat_add,← UInt64.add_assoc]
    exact later

section
variable {aead : Aead} {ch : Channel}

theorem channelDecrypt_strict (strict : ch.mode = .strict) {p} (short : p.length < 2 ^ 31) (seq : UInt64)
    (outLen : Nat) : channelDecrypt aead ch (packet aead ch.recvKey seq p) outLen =
      if seq = ch.recvSeq ∧ p.length ≤ outLen then ({ ch with recvSeq := seq + 1 },some p) else (ch,none) := by
  by_cases expected : seq = ch.recvSeq
  · have admitted : admits ch.mode ch.recvSeq seq = true := by rw [strict]; simp [admits,expected]
    by_cases room : p.length ≤ outLen
    · rw [channelDecrypt_packet aead admitted room,intReturn_of_lt short,if_pos ⟨expected,room⟩]
    · rw [if_neg (fun both => room both.2)]
      rcases channelDecrypt_cases aead ch (packet aead ch.recvKey seq p) outLen with same | ⟨q,opens,-,fits,-⟩
      · exact same
      · rw [opened_packet] at opens
        exact absurd (Option.some.inj opens ▸ fits) room
  · have refused : admits ch.mode ch.recvSeq (readLe64 (packet aead ch.recvKey seq p)) = false := by
      rw [strict]; simp [admits,expected]
    rw [if_neg (fun both => expected both.1)]
    exact channelDecrypt_not_admitted aead outLen refused

theorem cwireDecrypt_strict (strict : ch.mode = .strict) {p : Bytes} (short : p.length < 2 ^ 31) (seq : UInt64) :
    cwireDecrypt aead ch (packet aead ch.recvKey seq p) =
      if seq = ch.recvSeq then ({ ch with recvSeq := seq + 1 },some p) else (ch,none) := by
  have long : ¬ (packet aead ch.recvKey seq p).length < 8 + 16 := by simp
  rw [cwireDecrypt,if_neg long,channelDecrypt_strict strict short]
  simp

variable (aead) in
def numbered (key : Key) (item : UInt64 × Bytes) : Bytes := packet aead key item.1 item.2

theorem accepts_all_iff (strict : ch.mode = .strict) {items : List (UInt64 × Bytes)}
    (short : ∀ item ∈ items, item.2.length < 2 ^ 31) :
    (∀ got ∈ answers (cwireDecrypt aead) ch (items.map (numbered aead ch.recvKey)), got.isSome) ↔
      CountsFrom (· + 1) ch.recvSeq (items.map Prod.fst) := by
  induction items generalizing ch with
  | nil => simp [CountsFrom]
  | cons item rest ih =>
    obtain ⟨shortFirst,shortRest⟩ := forall_mem_cons.mp short
    have first : cwireDecrypt aead ch _ = _ := cwireDecrypt_strict strict shortFirst item.1
    by_cases expected : item.1 = ch.recvSeq
    · rw [if_pos expected,expected] at first
      simp only [map_cons,answers_cons,numbered,expected,first,forall_mem_cons,Option.isSome_some,true_and,
        CountsFrom]
      exact ih strict shortRest
    · -- Already this packet is rejected, and the list does not start with the number expected.
      rw [if_neg expected] at first
      simp [numbered,first,CountsFrom,expected]

end

section
variable (aead : Aead)

/-- `Stream.Recv` on an activated stream: the channel and the octets that have arrived. -/
def recv (peer : Channel × Bytes) : (Channel × Bytes) × Option Bytes :=
  match readMessage peer.2 with
  | (rest,none) => ((peer.1,rest),none)
  | (rest,some raw) => (((cwireDecrypt aead peer.1 raw).1,rest),(cwireDecrypt aead peer.1 raw).2)

def recvAll (n : Nat) (peer : Channel × Bytes) : List (Option Bytes) :=
  answers (fun peer (_ : Unit) => recv aead peer) peer (replicate n ())

theorem recvAll_frames {payloads} (small : ∀ data ∈ payloads, data.length ≤ maxMessageSize) (ch : Channel) :
    recvAll aead payloads.length (ch,payloads.flatMap frame) = answers (cwireDecrypt aead) ch payloads := by
  induction payloads generalizing ch with
  | nil => rfl
  | cons data rest ih =>
    obtain ⟨smallFirst,smallRest⟩ := forall_mem_cons.mp small
    have read : recv aead (ch,frame data ++ rest.flatMap frame) =
        (((cwireDecrypt aead ch data).1,rest.flatMap frame),(cwireDecrypt aead ch data).2) := by
      simp [recv,readMessage_frame smallFirst]
    have later := ih smallRest (cwireDecrypt aead ch data).1
    rw [recvAll] at later ⊢
    rw [length_cons,replicate_succ,flatMap_cons,answers_cons,read,answers_cons,later]

end

end Pigeon.Delivery
