import Pigeon.Delivery
import Pigeon.Transports

/-!
Both ends of an encrypted stream, in Go and in C over each of its transports. The sender takes
a number before the transport looks at the size, the receiver a message before it looks at the
buffer; a failure between has used up a number on one side only (`Slips`). As long as no step
slips everything that fits the buffer is received, and nothing afterwards (`serves_iff`).
-/
namespace Pigeon.Streams
open Octets Runs Sequence Sealing Crypto Framing Delivery List
open Transports
open CSession (pigeonMaxMsg)
open GoSession (cwireEncrypt cwireDecrypt cwireEncrypt_state cwireEncrypt_result)

/-- An implementation of encrypted streams: transport, encryption, decryption into a buffer, and the lengths that are
    refused or fit. -/
structure Stack (aead : Aead) where
  transport : Transport
  encrypt : Channel → Bytes → Channel × Option Bytes
  decrypt : Channel → Bytes → Nat → Channel × Option Bytes
  /-- The lengths that are turned away before a number is taken. -/
  refuses : Nat → Bool
  /-- The lengths that a returned `int` tells apart. -/
  measured : Nat → Bool
  /-- Whether a message of a length fits a buffer. -/
  fits : Nat → Nat → Bool
  encrypt_refused : ∀ ch msg, refuses msg.length = true → encrypt ch msg = (ch,none)
  encrypt_within : ∀ ch msg, msg.length + 24 ≤ pigeonMaxMsg →
    encrypt ch msg = ({ ch with sendSeq := ch.sendSeq + 1 },some (packet aead ch.sendKey ch.sendSeq msg))
  encrypt_over : ∀ ch msg, refuses msg.length = false → pigeonMaxMsg < msg.length + 24 →
    measured msg.length = true → (encrypt ch msg).1 = { ch with sendSeq := ch.sendSeq + 1 } ∧
      ∀ ct, (encrypt ch msg).2 = some ct → pigeonMaxMsg < ct.length
  decrypt_packet : ∀ ch seq p bufLen, ch.mode = .strict → p.length + 24 ≤ pigeonMaxMsg →
    decrypt ch (packet aead ch.recvKey seq p) bufLen =
      if seq = ch.recvSeq ∧ fits p.length bufLen = true then ({ ch with recvSeq := seq + 1 },some p) else (ch,none)
  fits_limit : ∀ n, n + 24 ≤ pigeonMaxMsg → fits n pigeonMaxMsg = true

section
variable {aead : Aead} {ch : Channel} {msg : Bytes}

theorem short_of_within {n} (within : n + 24 ≤ pigeonMaxMsg + 64) : n + 24 < 2 ^ 31 := by
  unfold pigeonMaxMsg at within
  omega

theorem cwireEncrypt_within (within : msg.length + 24 ≤ pigeonMaxMsg) : cwireEncrypt aead ch msg =
      ({ ch with sendSeq := ch.sendSeq + 1 },some (packet aead ch.sendKey ch.sendSeq msg)) :=
  channelEncrypt_room aead (by omega) (short_of_within (by omega))

theorem cwireEncrypt_over (large : pigeonMaxMsg < msg.length + 24) (small : msg.length + 24 < 2 ^ 32) :
    (cwireEncrypt aead ch msg).1 = { ch with sendSeq := ch.sendSeq + 1 } ∧
      ∀ ct, (cwireEncrypt aead ch msg).2 = some ct → pigeonMaxMsg < ct.length := by
  refine ⟨cwireEncrypt_state aead ch msg,?_⟩
  intro ct returned
  rw [cwireEncrypt_result] at returned
  rw [eq_of_intReturn (by rw [packet_length]; exact small) returned,packet_length]
  exact large

theorem scratch_room {n} (room : ¬ pigeonMaxMsg + 64 < 8 + n + 16) : n + 24 ≤ pigeonMaxMsg + 64 := by
  omega

theorem scratchEncrypt_room (room : msg.length + 24 ≤ pigeonMaxMsg + 64) :
    channelEncrypt aead ch msg (pigeonMaxMsg + 64) =
      ({ ch with sendSeq := ch.sendSeq + 1 },some (packet aead ch.sendKey ch.sendSeq msg)) :=
  channelEncrypt_room aead (by omega) (short_of_within room)

theorem scratchEncrypt_over (room : msg.length + 24 ≤ pigeonMaxMsg + 64) (large : pigeonMaxMsg < msg.length + 24) :
    (channelEncrypt aead ch msg (pigeonMaxMsg + 64)).1 = { ch with sendSeq := ch.sendSeq + 1 } ∧
      ∀ ct, (channelEncrypt aead ch msg (pigeonMaxMsg + 64)).2 = some ct → pigeonMaxMsg < ct.length := by
  rw [scratchEncrypt_room room]
  refine ⟨rfl,?_⟩
  intro ct returned
  rw [← Option.some.inj returned,packet_length]
  exact large

end

/-- The Go session: the buffer of `Recv` is as long as the message. -/
def goStack (aead : Aead) : Stack aead where
  transport := goStream
  encrypt := cwireEncrypt aead
  decrypt ch raw _ := cwireDecrypt aead ch raw
  refuses _ := false
  measured n := decide (n + 24 < 2 ^ 32)
  fits _ _ := true
  encrypt_refused _ _ refused := absurd refused Bool.false_ne_true
  encrypt_within _ _ within := cwireEncrypt_within within
  encrypt_over _ _ _ large small := cwireEncrypt_over large (of_decide_eq_true small)
  decrypt_packet := by
    intro ch seq p _ strict within
    have short := short_of_within (Nat.le_add_right_of_le within)
    rw [cwireDecrypt_strict strict (by omega)]
    simp
  fits_limit _ _ := rfl

def cStack (aead : Aead) (t : Transport) : Stack aead where
  transport := t
  encrypt ch msg := channelEncrypt aead ch msg (pigeonMaxMsg + 64)
  decrypt := channelDecrypt aead
  refuses n := decide (pigeonMaxMsg + 64 < 8 + n + 16)
  measured _ := true
  fits n bufLen := decide (n ≤ bufLen)
  encrypt_refused _ _ refused := channelEncrypt_refused aead (of_decide_eq_true refused)
  encrypt_within _ _ within := scratchEncrypt_room (Nat.le_add_right_of_le within)
  encrypt_over _ _ taken large _ := scratchEncrypt_over (scratch_room (of_decide_eq_false taken)) large
  decrypt_packet := by
    intro ch seq p bufLen strict within
    have short := short_of_within (Nat.le_add_right_of_le within)
    rw [channelDecrypt_strict strict (by omega)]
    simp
  fits_limit _ within := decide_eq_true (Nat.le_of_add_right_le within)

/-- The two ends and what is between them; `pending` keeps the messages taken and not given out.
    -/
structure Pair (t : Transport) where
  (sender receiver : Channel)
  wire : t.State
  pending : List Bytes

inductive Event
  | send (msg : Bytes)
  | recv (bufLen : Nat)

inductive Answer
  | sent
  | got (msg : Bytes)
  | failed
deriving DecidableEq

section
variable {aead : Aead} (k : Stack aead)

/-- `Stream.Send`. -/
def streamSend (s : Pair k.transport) (msg : Bytes) : Pair k.transport × Answer :=
  match k.encrypt s.sender msg with
  | (ch,none) => ({ s with sender := ch },.failed)
  | (ch,some ct) =>
    match k.transport.sendOnStream s.wire ct with
    | (w,false) => ({ s with sender := ch, wire := w },.failed)
    | (w,true) => ({ s with sender := ch, wire := w, pending := s.pending ++ [msg] },.sent)

/-- `Stream.Recv`, `pigeon_stream_recv`: the message is received into a scratch buffer for the longest packet and
    decrypted from there. -/
def streamRecv (s : Pair k.transport) (bufLen : Nat) : Pair k.transport × Answer :=
  match k.transport.recvOnStream s.wire (pigeonMaxMsg + 64) with
  | (w,none) => ({ s with wire := w },.failed)
  | (w,some raw) =>
    match k.decrypt s.receiver raw bufLen with
    | (ch,none) => ({ s with receiver := ch, wire := w, pending := s.pending.tail },.failed)
    | (ch,some msg) => ({ s with receiver := ch, wire := w, pending := s.pending.tail },.got msg)

def step (s : Pair k.transport) : Event → Pair k.transport × Answer
  | .send msg => streamSend k s msg
  | .recv bufLen => streamRecv k s bufLen

def fresh (sendKey recvKey : Key) : Pair k.transport where
  sender := channelInit sendKey recvKey .strict
  receiver := channelInit recvKey sendKey .strict
  wire := k.transport.idle
  pending := []

def Burns (n : Nat) : Prop := k.refuses n = false ∧ pigeonMaxMsg < n + 24
deriving Decidable

def Oversize : Event → Prop
  | .send msg => Burns k msg.length
  | .recv _ => False

def Overfills (s : Pair k.transport) : Event → Prop
  | .send msg => msg.length + 24 ≤ pigeonMaxMsg ∧ k.transport.room s.pending.length = false
  | .recv _ => False

def TooSmall (s : Pair k.transport) : Event → Prop
  | .send _ => False
  | .recv bufLen => ∃ msg ∈ s.pending.head?, k.fits msg.length bufLen = false

instance (e : Event) : Decidable (Oversize k e) := by
  cases e with
  | send msg => exact inferInstanceAs (Decidable (Burns k msg.length))
  | recv _ => exact instDecidableFalse

instance (s : Pair k.transport) (e : Event) : Decidable (Overfills k s e) := by
  cases e with
  | send msg => exact inferInstanceAs (Decidable (_ ∧ _))
  | recv _ => exact instDecidableFalse

instance (s : Pair k.transport) (e : Event) : Decidable (TooSmall k s e) := by
  cases e with
  | send _ => exact instDecidableFalse
  | recv _ => exact inferInstanceAs (Decidable (∃ msg ∈ s.pending.head?, _))

def Slips (s : Pair k.transport) (e : Event) : Prop := Oversize k e ∨ Overfills k s e ∨ TooSmall k s e

def Delivers (s : Pair k.transport) : Event → Prop
  | .send _ => True
  | .recv bufLen => ∀ msg ∈ s.pending.head?, k.fits msg.length bufLen = true → (streamRecv k s bufLen).2 = .got msg

def Usable (s : Pair k.transport) : Prop :=
  ∀ more, Along (step k) (fun s e => ¬ Slips k s e) s more → Along (step k) (Delivers k) s more

def Throughout (sendKey recvKey : Key) (cond : Pair k.transport → Event → Prop) (events : List Event) : Prop :=
  Along (step k) cond (fresh k sendKey recvKey) events

instance (sendKey recvKey : Key) (cond : Pair k.transport → Event → Prop) [∀ s e, Decidable (cond s e)]
    (events : List Event) : Decidable (Throughout k sendKey recvKey cond events) :=
  inferInstanceAs (Decidable (Along (step k) cond _ events))

def Serves (sendKey recvKey : Key) (events : List Event) : Prop :=
  Throughout k sendKey recvKey (Delivers k) events ∧ Usable k (final (step k) (fresh k sendKey recvKey) events)

end

section
variable {aead : Aead} {k : Stack aead} {key : Key} {lost : Nat} {s : Pair k.transport}

structure Counts (k : Stack aead) (key : Key) (lost : Nat) (s : Pair k.transport) : Prop where
  sendKey : s.sender.sendKey = key
  recvKey : s.receiver.recvKey = key
  strict : s.receiver.mode = .strict
  counter : s.sender.sendSeq = s.receiver.recvSeq + UInt64.ofNat (s.pending.length + lost)
  small : ∀ msg ∈ s.pending, msg.length + 24 ≤ pigeonMaxMsg
  numbers : ∃ items : List (UInt64 × Bytes), k.transport.Carries s.wire (items.map (numbered aead key)) ∧
    items.map Prod.snd = s.pending ∧ (lost = 0 → CountsFrom (· + 1) s.receiver.recvSeq (items.map Prod.fst))

theorem counts_fresh (k : Stack aead) (sendKey recvKey : Key) : Counts k sendKey 0 (fresh k sendKey recvKey) := by
  refine ⟨rfl,rfl,rfl,rfl,?_,[],k.transport.carries_idle,rfl,fun _ => trivial⟩
  intro msg impossible
  cases impossible

theorem counts_burn (counts : Counts k key lost s) :
    Counts k key (lost + 1) { s with sender := { s.sender with sendSeq := s.sender.sendSeq + 1 } } := by
  obtain ⟨items,carried,payloads,-⟩ := counts.numbers
  refine ⟨counts.sendKey,counts.recvKey,counts.strict,?_,counts.small,items,carried,payloads,?_⟩
  · change s.sender.sendSeq + 1 = s.receiver.recvSeq + UInt64.ofNat (s.pending.length + lost + 1)
    rw [counts.counter,← ofNat_succ,UInt64.add_assoc]
  · intro impossible
    omega

variable {ms : List Bytes}

theorem streamSend_taken (carried : k.transport.Carries s.wire ms) {msg}
    (within : msg.length + 24 ≤ pigeonMaxMsg) (free : k.transport.room ms.length) :
    ∃ w, k.transport.Carries w (ms ++ [packet aead s.sender.sendKey s.sender.sendSeq msg]) ∧ streamSend k s msg =
        ({ s with
            sender := { s.sender with sendSeq := s.sender.sendSeq + 1 }
            wire := w
            pending := s.pending ++ [msg] },.sent) := by
  have short : (packet aead s.sender.sendKey s.sender.sendSeq msg).length ≤ pigeonMaxMsg := by
    rw [packet_length]; exact within
  obtain ⟨w,taken,carries⟩ := k.transport.send_taken carried short free
  exact ⟨w,carries,by simp [streamSend,k.encrypt_within s.sender msg within,taken]⟩

theorem streamSend_within (counts : Counts k key lost s) {msg} (within : msg.length + 24 ≤ pigeonMaxMsg)
    (free : k.transport.room s.pending.length) :
    Counts k key lost (streamSend k s msg).1 ∧ (streamSend k s msg).1.pending = s.pending ++ [msg] := by
  obtain ⟨items,carried,payloads,counted⟩ := counts.numbers
  have many : items.length = s.pending.length := by rw [← payloads,length_map]
  obtain ⟨w,carries,sent⟩ := streamSend_taken carried within (by rw [length_map,many]; exact free)
  rw [sent]
  refine ⟨⟨counts.sendKey,counts.recvKey,counts.strict,?_,?_,items ++ [(s.sender.sendSeq,msg)],?_,?_,?_⟩,rfl⟩
  · have total : s.pending.length + lost + 1 = (s.pending ++ [msg]).length + lost := by
      rw [length_append,length_singleton]; omega
    change s.sender.sendSeq + 1 = s.receiver.recvSeq + UInt64.ofNat ((s.pending ++ [msg]).length + lost)
    rw [← total,counts.counter,← ofNat_succ,UInt64.add_assoc]
  · exact forall_mem_snoc.mpr ⟨counts.small,within⟩
  · rw [map_append,map_singleton,numbered,← counts.sendKey]
    rw [← counts.sendKey] at carries
    exact carries
  · rw [map_append,payloads]
    rfl
  · rintro rfl
    have next : s.sender.sendSeq = s.receiver.recvSeq + UInt64.ofNat (items.map Prod.fst).length := by
      rw [counts.counter,length_map,many]
      rfl
    rw [map_append,map_singleton,next]
    exact countsFrom_snoc (counted rfl)

theorem streamSend_refused {msg} (refused : k.refuses msg.length) : streamSend k s msg = (s,.failed) := by
  simp [streamSend,k.encrypt_refused s.sender msg refused]

theorem streamSend_lost (counts : Counts k key lost s) {msg} (sized : Burns k msg.length → k.measured msg.length)
    (fails : Oversize k (.send msg) ∨ Overfills k s (.send msg)) :
    streamSend k s msg = ({ s with sender := { s.sender with sendSeq := s.sender.sendSeq + 1 } },.failed) := by
  obtain ⟨items,carried,payloads,-⟩ := counts.numbers
  have many : items.length = s.pending.length := by rw [← payloads,length_map]
  rcases fails with large | ⟨within,full⟩
  · obtain ⟨next,long⟩ := k.encrypt_over s.sender msg large.1 large.2 (sized large)
    cases result : k.encrypt s.sender msg with
    | mk ch out =>
      rw [result] at next long
      obtain rfl : ch = _ := next
      cases out with
      | none => simp [streamSend,result]
      | some ct =>
        have refused := k.transport.send_refused carried (.inl (long ct rfl))
        simp [streamSend,result,refused]
  · have refused : k.transport.sendOnStream s.wire (packet aead s.sender.sendKey s.sender.sendSeq msg) = (s.wire,false) :=
      k.transport.send_refused carried (.inr (by rw [length_map,many]; exact full))
    simp [streamSend,k.encrypt_within s.sender msg within,refused]

theorem streamRecv_empty (counts : Counts k key lost s) (empty : s.pending = []) (bufLen : Nat) :
    streamRecv k s bufLen = (s,.failed) := by
  obtain ⟨items,carried,payloads,-⟩ := counts.numbers
  have noItems : items = [] := by
    rw [empty] at payloads
    exact map_eq_nil_iff.mp payloads
  rw [noItems] at carried
  simp [streamRecv,k.transport.recv_empty carried]

theorem streamRecv_taken {seq msg} (strict : s.receiver.mode = .strict)
    (carried : k.transport.Carries s.wire (packet aead s.receiver.recvKey seq msg :: ms))
    (within : msg.length + 24 ≤ pigeonMaxMsg) (bufLen : Nat) : ∃ w, k.transport.Carries w ms ∧ streamRecv k s bufLen =
      if seq = s.receiver.recvSeq ∧ k.fits msg.length bufLen = true then
        ({ s with receiver := { s.receiver with recvSeq := seq + 1 }, wire := w, pending := s.pending.tail },.got msg)
      else ({ s with wire := w, pending := s.pending.tail },.failed) := by
  have fitsScratch : (packet aead s.receiver.recvKey seq msg).length ≤ pigeonMaxMsg + 64 := by
    rw [packet_length]; omega
  obtain ⟨w,taken,carries⟩ := k.transport.recv_next carried fitsScratch
  refine ⟨w,carries,?_⟩
  have decrypted := k.decrypt_packet s.receiver seq msg bufLen strict within
  by_cases accepted : seq = s.receiver.recvSeq ∧ k.fits msg.length bufLen = true
  · rw [if_pos accepted] at decrypted
    simp [streamRecv,taken,decrypted,if_pos accepted]
  · rw [if_neg accepted] at decrypted
    simp [streamRecv,taken,decrypted,if_neg accepted]

theorem streamRecv_next (counts : Counts k key lost s) {msg rest} (next : s.pending = msg :: rest) (bufLen : Nat) :
    (streamRecv k s bufLen).1.pending = rest ∧ ((k.fits msg.length bufLen ∧ (streamRecv k s bufLen).2 = .got msg ∧
          Counts k key lost (streamRecv k s bufLen).1) ∨
        ((k.fits msg.length bufLen → 0 < lost) ∧ Counts k key (lost + 1) (streamRecv k s bufLen).1)) := by
  obtain ⟨items,carried,payloads,counted⟩ := counts.numbers
  rw [next] at payloads
  obtain ⟨⟨seq,head⟩,others,rfl,same,later⟩ := map_eq_cons_iff.mp payloads
  obtain rfl : msg = head := same.symm
  have within : msg.length + 24 ≤ pigeonMaxMsg := counts.small msg (by rw [next]; exact mem_cons_self)
  have smallRest : ∀ other ∈ rest, other.length + 24 ≤ pigeonMaxMsg :=
    fun other mem => counts.small other (by rw [next]; exact mem_cons_of_mem _ mem)
  rw [map_cons,numbered,← counts.recvKey] at carried
  obtain ⟨w,carries,result⟩ := streamRecv_taken counts.strict carried within bufLen
  rw [counts.recvKey] at carries
  rw [next,tail_cons] at result
  have counter := counts.counter
  rw [next,length_cons] at counter
  by_cases accepted : seq = s.receiver.recvSeq ∧ k.fits msg.length bufLen = true
  · rw [if_pos accepted] at result
    rw [result]
    refine ⟨rfl,.inl ⟨accepted.2,rfl,counts.sendKey,counts.recvKey,counts.strict,?_,smallRest,others,carries,later,?_⟩⟩
    · change s.sender.sendSeq = seq + 1 + UInt64.ofNat (rest.length + lost)
      rw [counter,accepted.1,UInt64.add_assoc,UInt64.add_comm 1,ofNat_succ,Nat.add_right_comm]
    · intro none
      have counting := (counted none).2
      rw [← accepted.1] at counting
      exact counting
  · rw [if_neg accepted] at result
    rw [result]
    refine ⟨rfl,.inr ⟨?_,counts.sendKey,counts.recvKey,counts.strict,?_,smallRest,others,carries,later,?_⟩⟩
    · -- With nothing lost the next message has the number that is expected.
      intro fits
      refine Nat.pos_of_ne_zero ?_
      intro none
      exact accepted ⟨(counted none).1,fits⟩
    · change s.sender.sendSeq = s.receiver.recvSeq + UInt64.ofNat (rest.length + (lost + 1))
      rw [counter,Nat.add_right_comm,Nat.add_assoc]
    · intro impossible
      omega

/-- A message whose number is lost is within the lengths that a returned `int` tells apart. -/
def Sized (k : Stack aead) : Event → Prop
  | .send msg => Burns k msg.length → k.measured msg.length = true
  | .recv _ => True

variable {e : Event}

theorem sized_of_not_slips (holds : ¬ Slips k s e) : Sized k e := by
  cases e with
  | send msg => exact fun burns => absurd (.inl burns) holds
  | recv bufLen => trivial

structure Accounts (k : Stack aead) (key : Key) (s : Pair k.transport) (e : Event) (lost lost' : Nat) : Prop where
  counts : Counts k key lost' (step k s e).1
  grows : lost ≤ lost'
  bounded : lost' + (step k s e).1.pending.length ≤ lost + s.pending.length + 1
  slips : Slips k s e → lost < lost'
  holds : ¬ Slips k s e → lost = 0 → lost' = 0 ∧ Delivers k s e

theorem accounts_kept (counts : Counts k key lost (step k s e).1) (holds : ¬ Slips k s e)
    (bounded : (step k s e).1.pending.length ≤ s.pending.length + 1) (delivers : Delivers k s e) :
    Accounts k key s e lost lost where
  counts := counts
  grows := Nat.le_refl _
  bounded := by omega
  slips := fun slips => absurd slips holds
  holds := fun _ zero => ⟨zero,delivers⟩

theorem accounts_lost (counts : Counts k key (lost + 1) (step k s e).1) (why : lost = 0 → Slips k s e)
    (bounded : (step k s e).1.pending.length ≤ s.pending.length) : Accounts k key s e lost (lost + 1) where
  counts := counts
  grows := Nat.le_succ _
  bounded := by omega
  slips := fun _ => Nat.lt_succ_self _
  holds := fun holds zero => absurd (why zero) holds

theorem send_accounts (counts : Counts k key lost s) {msg} (sized : Sized k (.send msg)) :
    ∃ lost', Accounts k key s (.send msg) lost lost' := by
  by_cases fails : Oversize k (.send msg) ∨ Overfills k s (.send msg)
  · have result := streamSend_lost counts sized fails
    refine ⟨lost + 1,accounts_lost ?_ (fun _ => fails.imp_right .inl) ?_⟩
    · rw [step,result]
      exact counts_burn counts
    · rw [step,result]
  · have holds : ¬ Slips k s (.send msg) := by
      rintro (large | full | impossible)
      · exact fails (.inl large)
      · exact fails (.inr full)
      · exact impossible
    cases refused : k.refuses msg.length with
    | true =>
      have result : streamSend k s msg = (s,.failed) := streamSend_refused refused
      refine ⟨lost,accounts_kept ?_ holds ?_ trivial⟩
      · rw [step,result]
        exact counts
      · rw [step,result]
        exact Nat.le_succ _
    | false =>
      have within : msg.length + 24 ≤ pigeonMaxMsg := by
        by_contra large
        exact fails (.inl ⟨refused,by omega⟩)
      have free : k.transport.room s.pending.length = true := by
        by_contra full
        exact fails (.inr ⟨within,by simpa using full⟩)
      obtain ⟨kept,longer⟩ := streamSend_within counts within free
      refine ⟨lost,accounts_kept kept holds ?_ trivial⟩
      rw [step,longer,length_append,length_singleton]

theorem slips_recv_iff {bufLen} :
    Slips k s (.recv bufLen) ↔ ∃ msg ∈ s.pending.head?, k.fits msg.length bufLen = false := by
  simp [Slips,Oversize,Overfills,TooSmall]

theorem recv_accounts (counts : Counts k key lost s) (bufLen : Nat) :
    ∃ lost', Accounts k key s (.recv bufLen) lost lost' := by
  cases next : s.pending with
  | nil =>
    have result := streamRecv_empty counts next bufLen
    refine ⟨lost,accounts_kept ?_ ?_ ?_ ?_⟩
    · rw [step,result]
      exact counts
    · simp [slips_recv_iff,next]
    · rw [step,result]
      exact Nat.le_succ _
    · simp [Delivers,next]
  | cons msg rest =>
    obtain ⟨shorter,⟨fits,got,kept⟩ | ⟨early,kept⟩⟩ := streamRecv_next counts next bufLen
    · refine ⟨lost,accounts_kept kept ?_ ?_ ?_⟩
      · simp [slips_recv_iff,next,fits]
      · rw [step,shorter,next,length_cons]
        omega
      · simp [Delivers,next,got]
    · refine ⟨lost + 1,accounts_lost kept ?_ ?_⟩
      · intro zero
        rw [slips_recv_iff,next]
        refine ⟨msg,rfl,?_⟩
        by_contra fits
        have := early (by simpa using fits)
        omega
      · rw [step,shorter,next,length_cons]
        exact Nat.le_succ _

theorem step_accounts (counts : Counts k key lost s) (sized : Sized k e) :
    ∃ lost', Accounts k key s e lost lost' := by
  cases e with
  | send msg => exact send_accounts counts sized
  | recv bufLen => exact recv_accounts counts bufLen

variable {events : List Event}

theorem counts_run (counts : Counts k key lost s) (sized : Along (step k) (fun _ e => Sized k e) s events) :
    ∃ lost', Counts k key lost' (final (step k) s events) ∧ lost ≤ lost' ∧
      lost' + (final (step k) s events).pending.length ≤ lost + s.pending.length + events.length ∧
      (¬ Along (step k) (fun s e => ¬ Slips k s e) s events → lost < lost') ∧
      (Along (step k) (fun s e => ¬ Slips k s e) s events → lost = 0 →
        lost' = 0 ∧ Along (step k) (Delivers k) s events) := by
  induction events generalizing s lost with
  | nil =>
    refine ⟨lost,counts,Nat.le_refl _,by simp,fun slipped => absurd trivial slipped,fun _ zero => ⟨zero,trivial⟩⟩
  | cons e rest ih =>
    obtain ⟨middle,first⟩ := step_accounts counts sized.1
    obtain ⟨last,countsLast,growsLater,boundedLater,slipsLater,holdsLater⟩ := ih first.counts sized.2
    refine ⟨last,countsLast,first.grows.trans growsLater,?_,?_,?_⟩
    · have bounded := first.bounded
      rw [final_cons,length_cons]
      omega
    · -- A lost number is never given back.
      intro slipped
      by_cases here : Slips k s e
      · exact Nat.lt_of_lt_of_le (first.slips here) growsLater
      · exact Nat.lt_of_le_of_lt first.grows (slipsLater (fun later => slipped ⟨here,later⟩))
    · rintro ⟨here,later⟩ zero
      obtain ⟨zeroNext,delivers⟩ := first.holds here zero
      obtain ⟨zeroLast,deliversLater⟩ := holdsLater later zeroNext
      exact ⟨zeroLast,delivers,deliversLater⟩

theorem usable_of_none_lost (counts : Counts k key 0 s) : Usable k s := by
  intro more holds
  obtain ⟨last,-,-,-,-,delivered⟩ := counts_run counts (along_mono (fun _ _ => sized_of_not_slips) holds)
  exact (delivered holds rfl).2

theorem usable_step (usable : Usable k s) (holds : ¬ Slips k s e) : Delivers k s e ∧ Usable k (step k s e).1 :=
  ⟨(usable [e] ⟨holds,trivial⟩).1,fun more later => (usable (e :: more) ⟨holds,later⟩).2⟩

theorem not_slips_recv_limit (small : ∀ msg ∈ s.pending, msg.length + 24 ≤ pigeonMaxMsg) :
    ¬ Slips k s (.recv pigeonMaxMsg) := by
  rw [slips_recv_iff]
  rintro ⟨msg,first,tooSmall⟩
  rw [k.fits_limit _ (small msg (mem_of_mem_head? first))] at tooSmall
  cases tooSmall

section
variable (counts : Counts k key lost s) (behind : 0 < lost)
include counts behind

theorem rejected_when_behind (few : lost < 2 ^ 64)
    (empty : s.pending = []) {msg} (within : msg.length + 24 ≤ pigeonMaxMsg) (bufLen : Nat) :
    (streamSend k s msg).2 = .sent ∧ (streamRecv k (streamSend k s msg).1 bufLen).2 = .failed := by
  obtain ⟨items,carried,payloads,-⟩ := counts.numbers
  obtain rfl : items = [] := by rw [empty] at payloads; exact map_eq_nil_iff.mp payloads
  obtain ⟨w,carries,sent⟩ := streamSend_taken carried within k.transport.room_idle
  rw [map_nil,nil_append,counts.sendKey,← counts.recvKey] at carries
  have ahead : s.sender.sendSeq ≠ s.receiver.recvSeq := by
    intro same
    have gap : UInt64.ofNat lost = UInt64.ofNat 0 := by simpa [empty,same] using counts.counter
    have := ofNat_inj_below few (by decide) gap
    omega
  rw [sent]
  refine ⟨rfl,?_⟩
  obtain ⟨w',-,result⟩ := streamRecv_taken (s := ⟨_,s.receiver,w,_⟩) counts.strict carries within bufLen
  rw [if_neg (fun both => ahead both.1)] at result
  exact congrArg Prod.snd result

theorem not_usable_idle (few : lost < 2 ^ 64) (empty : s.pending = []) : ¬ Usable k s := by
  intro usable
  have short : ([] : Bytes).length + 24 ≤ pigeonMaxMsg := by decide
  have free : k.transport.room s.pending.length = true := by rw [empty]; exact k.transport.room_idle
  have sends : ¬ Slips k s (.send []) := by
    rintro (⟨-,large⟩ | ⟨-,full⟩ | impossible)
    · omega
    · rw [free] at full
      cases full
    · exact impossible
  obtain ⟨-,usableNext⟩ := usable_step usable sends
  obtain ⟨kept,longer⟩ := streamSend_within counts short free
  obtain ⟨delivers,-⟩ := usable_step usableNext (not_slips_recv_limit kept.small)
  rw [empty,nil_append] at longer
  have got := delivers [] (by rw [step,longer]; rfl) (k.fits_limit _ short)
  rw [step,(rejected_when_behind counts behind few empty short pigeonMaxMsg).2] at got
  cases got

theorem not_usable_of_lost (few : lost + s.pending.length < 2 ^ 64) : ¬ Usable k s := by
  -- Whatever is under way is received first; then the next message shows it.
  induction next : s.pending generalizing s lost with
  | nil => exact not_usable_idle counts behind (by omega) next
  | cons msg rest ih =>
    intro usable
    obtain ⟨-,usableNext⟩ := usable_step usable (not_slips_recv_limit counts.small)
    rw [next,length_cons] at few
    obtain ⟨shorter,⟨-,-,kept⟩ | ⟨-,kept⟩⟩ := streamRecv_next counts next pigeonMaxMsg
    · exact ih kept behind (by rw [shorter]; omega) shorter usableNext
    · exact ih kept (by omega) (by rw [shorter]; omega) shorter usableNext

end

theorem serves_iff {sendKey recvKey : Key} (few : events.length < 2 ^ 64)
    (sized : Throughout k sendKey recvKey (fun _ e => Sized k e) events) :
    Serves k sendKey recvKey events ↔ Throughout k sendKey recvKey (fun s e => ¬ Slips k s e) events := by
  obtain ⟨lost,counts,-,bounded,slipped,held⟩ := counts_run (counts_fresh k sendKey recvKey) sized
  constructor
  · rintro ⟨-,usable⟩
    by_contra slips
    refine not_usable_of_lost counts (slipped slips) ?_ usable
    simp only [fresh,length_nil] at bounded ⊢
    omega
  · intro holds
    obtain ⟨rfl,delivered⟩ := held holds rfl
    exact ⟨delivered,usable_of_none_lost counts⟩

end

inductive CTransport
  | loopback
  | ngtcp2

def CTransport.transport : CTransport → Transport
  | .loopback => Transports.loopback
  | .ngtcp2 => Transports.ngtcp2

inductive Implementation
  | go
  | c (transport : CTransport)

def Implementation.stack (aead : Aead) : Implementation → Stack aead
  | .go => goStack aead
  | .c t => cStack aead t.transport

/-- Messages that fail after their number was taken: in Go all over the limit, in C those that fit the scratch
    buffer. -/
def Implementation.Loses : Implementation → Nat → Prop
  | .go, n => maxMessageSize < n + 24
  | .c _, n => pigeonMaxMsg < n + 24 ∧ n + 24 ≤ pigeonMaxMsg + 64

theorem burns_iff_loses (aead : Aead) (impl : Implementation) (n : Nat) :
    Burns (impl.stack aead) n ↔ impl.Loses n := by
  cases impl with
  | go =>
    change false = false ∧ pigeonMaxMsg < n + 24 ↔ maxMessageSize < n + 24
    rw [maxMessageSize_eq]
    simp
  | c t =>
    change decide (pigeonMaxMsg + 64 < 8 + n + 16) = false ∧ pigeonMaxMsg < n + 24 ↔
      pigeonMaxMsg < n + 24 ∧ n + 24 ≤ pigeonMaxMsg + 64
    rw [decide_eq_false_iff_not]
    omega

theorem oversize_iff_loses {aead : Aead} {impl : Implementation} {events : List Event} :
    (∀ e ∈ events, ¬ Oversize (impl.stack aead) e) ↔ ∀ msg, .send msg ∈ events → ¬ impl.Loses msg.length := by
  constructor
  · intro none msg mem loses
    exact none (.send msg) mem ((burns_iff_loses aead impl _).mpr loses)
  · intro none e mem large
    cases e with
    | send msg => exact none msg mem ((burns_iff_loses aead impl _).mp large)
    | recv bufLen => exact large

theorem not_slips_iff {aead : Aead} {k : Stack aead} (s : Pair k.transport) (e : Event) :
    ¬ Slips k s e ↔ ¬ Oversize k e ∧ ¬ Overfills k s e ∧ ¬ TooSmall k s e := by
  rw [Slips,not_or,not_or]

/-- With room everywhere, a run is served just when no message fails after its number was taken.
    -/
theorem oversize_send_usable_iff (aead : Aead) (impl : Implementation) (sendKey recvKey : Key) (events : List Event)
    (few : events.length < 2 ^ 64)
    (sized : impl = .go → ∀ msg, .send msg ∈ events → msg.length + 24 < 2 ^ 32)
    (others : Throughout (impl.stack aead) sendKey recvKey
      (fun s e => ¬ Overfills (impl.stack aead) s e ∧ ¬ TooSmall (impl.stack aead) s e) events) :
    Serves (impl.stack aead) sendKey recvKey events ↔ ∀ msg, .send msg ∈ events → ¬ impl.Loses msg.length := by
  have measured : ∀ e ∈ events, Sized (impl.stack aead) e := by
    intro e mem
    cases e with
    | recv bufLen => trivial
    | send msg =>
      intro _
      cases impl with
      | go => exact decide_eq_true (sized rfl msg mem)
      | c t => rfl
  rw [serves_iff few (along_of_forall measured),← oversize_iff_loses,Throughout]
  simp only [not_slips_iff]
  rw [along_and_iff,along_forall_iff]
  exact and_iff_left others

theorem oversize_send_usable_short :
    Serves (Implementation.go.stack checked) keyA keyB [.send [1,2],.recv 0,.send [3],.recv 0] :=
  (oversize_send_usable_iff checked .go keyA keyB [.send [1,2],.recv 0,.send [3],.recv 0] (by decide)
    (fun _ => by simp) (by decide +kernel)).mpr (by simp [Implementation.Loses,maxMessageSize])

theorem rejected_after_loss {aead : Aead} {k : Stack aead} (sendKey recvKey : Key) {big : Bytes}
    (burns : Burns k big.length) (measured : k.measured big.length) (msg : Bytes)
    (within : msg.length + 24 ≤ pigeonMaxMsg) :
    answers (step k) (fresh k sendKey recvKey) [.send big,.send msg,.recv pigeonMaxMsg] = [.failed,.sent,.failed] := by
  have counts := counts_fresh k sendKey recvKey
  have first := streamSend_lost counts (fun _ => measured) (.inl burns)
  obtain ⟨sent,rejected⟩ := rejected_when_behind (counts_burn counts) (by decide) (by decide) rfl within pigeonMaxMsg
  simp only [answers_cons,answers_nil,step,first]
  rw [sent,rejected]

def tooLong : Bytes := replicate 1048553 0

theorem tooLong_rejects (impl : Implementation) :
    answers (step (impl.stack checked)) (fresh (impl.stack checked) keyA keyB)
      [.send tooLong,.send [7],.recv pigeonMaxMsg] = [.failed,.sent,.failed] := by
  have length : tooLong.length = 1048553 := length_replicate
  refine rejected_after_loss keyA keyB ?_ ?_ [7] (by decide)
  · rw [burns_iff_loses,length]
    cases impl with
    | go => change 1048576 < 1048553 + 24; decide
    | c t => change 1048576 < 1048553 + 24 ∧ 1048553 + 24 ≤ 1048576 + 64; decide
  · rw [length]
    cases impl with
    | go => decide
    | c t => rfl

/-- In Go and in C, over both transports, a message that is too long makes the peer reject the next one. -/
theorem oversize_send_rejects_next : answers (step (goStack checked)) (fresh (goStack checked) keyA keyB)
        [.send tooLong,.send [7],.recv pigeonMaxMsg] = [.failed,.sent,.failed] ∧
      answers (step (cStack checked loopback)) (fresh (cStack checked loopback) keyA keyB)
        [.send tooLong,.send [7],.recv pigeonMaxMsg] = [.failed,.sent,.failed] ∧
      answers (step (cStack checked ngtcp2)) (fresh (cStack checked ngtcp2) keyA keyB)
        [.send tooLong,.send [7],.recv pigeonMaxMsg] = [.failed,.sent,.failed] :=
  ⟨tooLong_rejects .go,tooLong_rejects (.c .loopback),tooLong_rejects (.c .ngtcp2)⟩

/-- A run in which no send loses its number is served just when no receive of it has too small a buffer for the
    message it takes. -/
theorem small_buffer_usable_iff (aead : Aead) (t : CTransport) (sendKey recvKey : Key) (events : List Event)
    (few : events.length < 2 ^ 64)
    (sends : Throughout (cStack aead t.transport) sendKey recvKey
      (fun s e => ¬ Oversize (cStack aead t.transport) e ∧ ¬ Overfills (cStack aead t.transport) s e) events) :
    Serves (cStack aead t.transport) sendKey recvKey events ↔
      Throughout (cStack aead t.transport) sendKey recvKey (fun s e => ¬ TooSmall (cStack aead t.transport) s e) events := by
  have measured : ∀ e ∈ events, Sized (cStack aead t.transport) e := by
    intro e _
    cases e with
    | send msg => exact fun _ => rfl
    | recv bufLen => trivial
  rw [serves_iff few (along_of_forall measured),Throughout]
  simp only [not_slips_iff,← and_assoc]
  rw [along_and_iff]
  exact and_iff_right sends

theorem small_buffer_usable_roomy :
    Serves (cStack checked CTransport.ngtcp2.transport) keyA keyB [.send [1,2,3],.send [4],.recv 3,.recv 100] :=
  (small_buffer_usable_iff checked .ngtcp2 keyA keyB [.send [1,2,3],.send [4],.recv 3,.recv 100] (by decide)
    (by decide +kernel)).mpr (by decide +kernel)

/-- Over both transports a buffer of two octets for a message of three makes the next receive fail, with all the room
    it wants. -/
theorem small_buffer_rejects_next :
    answers (step (cStack checked loopback)) (fresh (cStack checked loopback) keyA keyB)
        [.send [1,2,3],.send [4],.recv 2,.recv 100] = [.sent,.sent,.failed,.failed] ∧
      answers (step (cStack checked ngtcp2)) (fresh (cStack checked ngtcp2) keyA keyB)
        [.send [1,2,3],.send [4],.recv 2,.recv 100] = [.sent,.sent,.failed,.failed] := by
  constructor
  · decide +kernel
  · decide +kernel

end Pigeon.Streams
