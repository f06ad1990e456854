import Pigeon.Delivery

/-!
Concurrent calls of `Stream.Send` on one Go stream (`api.go`): `Channel.Encrypt` under the
channel's lock, then `writeMessage` under `sendMu`, and any other call between the two. The
receiver accepts everything that a schedule writes just when calls write in the order in which
they encrypted (`concurrent_sends_iff`).
-/
namespace Pigeon.SendOrder
open Octets Runs Sequence Sealing Crypto Framing Delivery List
open GoSession (cwireEncrypt cwireDecrypt cwireEncrypt_state cwireEncrypt_result)

structure Sender where
  channel : Channel
  /-- The calls between their critical sections, each with its sealed message. -/
  waiting : List (Nat × Bytes)
  /-- The octets written to the stream. -/
  wire : Bytes

inductive Event
  | encrypt (call : Nat) (msg : Bytes)
  | write (call : Nat)

/-- How far a call is after an event: it goes on to `sendMu`, returns, or returns an error. A call that has not
    encrypted cannot write. -/
inductive Progress
  | sealed
  | wrote
  | error
  | absent
deriving DecidableEq

section
variable (aead : Aead)

/-- The steps are those of `Stream.Send`. -/
def step (s : Sender) : Event → Sender × Progress
  | .encrypt call msg =>
    match (cwireEncrypt aead s.channel msg).2 with
    | none => ({ s with channel := (cwireEncrypt aead s.channel msg).1 },.error)
    | some ct =>
      ({ s with channel := (cwireEncrypt aead s.channel msg).1, waiting := s.waiting ++ [(call,ct)] },.sealed)
  | .write call =>
    match s.waiting.find? (·.1 = call) with
    | none => (s,.absent)
    | some (_,ct) =>
      match writeMessage ct with
      | none => ({ s with waiting := s.waiting.filter (·.1 ≠ call) },.error)
      | some octets =>
        ({ s with waiting := s.waiting.filter (·.1 ≠ call), wire := s.wire ++ octets },.wrote)

def Succeeds (s : Sender) (e : Event) : Prop := (step aead s e).2 = .sealed ∨ (step aead s e).2 = .wrote
deriving Decidable

end

def Event.encrypts : Event → List (Nat × Bytes)
  | .encrypt call msg => [(call,msg)]
  | .write _ => []

def Event.writes : Event → List Nat
  | .encrypt _ _ => []
  | .write call => [call]

def encrypted (events : List Event) : List (Nat × Bytes) := events.flatMap Event.encrypts

def written (events : List Event) : List Nat := events.flatMap Event.writes

theorem flatMap_length_le {A B : Type} {f : A → List B} (single : ∀ a, (f a).length ≤ 1) (events : List A) :
    (events.flatMap f).length ≤ events.length := by
  induction events with
  | nil => exact Nat.le_refl _
  | cons a rest ih =>
    have first := single a
    rw [flatMap_cons,length_append,length_cons]
    omega

theorem encrypted_length_le (events : List Event) : (encrypted events).length ≤ events.length := by
  refine flatMap_length_le ?_ events
  intro e
  cases e <;> simp [Event.encrypts]

theorem written_length_le (events : List Event) : (written events).length ≤ events.length := by
  refine flatMap_length_le ?_ events
  intro e
  cases e <;> simp [Event.writes]

section
variable {aead : Aead} {key : Key} {log : List (Nat × Bytes)} {out : List Nat} {s : Sender}

def entryPacket (aead : Aead) (key : Key) (entry : Nat × Bytes) : Bytes :=
  packet aead key (UInt64.ofNat entry.1) entry.2

/-- The messages waiting and on the stream are sealed under their position in `log`. -/
structure Tracks (aead : Aead) (key : Key) (log : List (Nat × Bytes)) (out : List Nat) (s : Sender) : Prop where
  keyed : s.channel.sendKey = key
  counter : s.channel.sendSeq = UInt64.ofNat log.length
  waiting : ∀ entry ∈ s.waiting, ∃ i msg,
    log[i]? = some (entry.1,msg) ∧ entry.2 = entryPacket aead key (i,msg)
  wire : ∃ items : List (Nat × Bytes), s.wire = (items.map (entryPacket aead key)).flatMap frame ∧
    Forall₂ (fun call item => log[item.1]? = some (call,item.2)) out items ∧
    ∀ item ∈ items, item.2.length + 24 ≤ maxMessageSize

section
variable (tracks : Tracks aead key log out s)
include tracks

theorem tracks_encrypt {call msg} (small : msg.length + 24 < 2 ^ 32) (ok : Succeeds aead s (.encrypt call msg)) :
    Tracks aead key (log ++ [(call,msg)]) out (step aead s (.encrypt call msg)).1 := by
  have sealed : (cwireEncrypt aead s.channel msg).2 = some (entryPacket aead key (log.length,msg)) := by
    cases result : (cwireEncrypt aead s.channel msg).2 with
    | none => simp only [Succeeds,step,result,reduceCtorEq,or_self] at ok
    | some ct =>
      rw [cwireEncrypt_result,tracks.keyed,tracks.counter] at result
      rw [eq_of_intReturn (by rw [packet_length]; exact small) result]
      rfl
  have next : (step aead s (.encrypt call msg)).1 = { s with
        channel := { s.channel with sendSeq := s.channel.sendSeq + 1 }
        waiting := s.waiting ++ [(call,entryPacket aead key (log.length,msg))] } := by
    simp only [step,sealed,cwireEncrypt_state]
  rw [next]
  obtain ⟨items,octets,picked,fits⟩ := tracks.wire
  refine ⟨tracks.keyed,?_,?_,items,octets,?_,fits⟩
  · rw [tracks.counter,ofNat_succ,length_append,length_singleton]
  · intro entry mem
    rcases mem_snoc.mp mem with old | rfl
    · obtain ⟨i,sent,found,same⟩ := tracks.waiting entry old
      exact ⟨i,sent,getElem?_append_some found,same⟩
    · exact ⟨log.length,msg,by simp,rfl⟩
  · exact picked.imp (fun _ _ found => getElem?_append_some found)

theorem tracks_write {call} (ok : Succeeds aead s (.write call)) :
    Tracks aead key log (out ++ [call]) (step aead s (.write call)).1 := by
  cases found : s.waiting.find? (·.1 = call) with
  | none => simp [Succeeds,step,found] at ok
  | some entry =>
    cases result : writeMessage entry.2 with
    | none => simp [Succeeds,step,found,result] at ok
    | some written =>
      obtain ⟨i,msg,logged,payload⟩ := tracks.waiting entry (mem_of_find?_eq_some found)
      have named : entry.1 = call := by simpa using find?_some found
      obtain ⟨within,rfl⟩ := writeMessage_eq_some.mp result
      have next : (step aead s (.write call)).1 = { s with
            waiting := s.waiting.filter (·.1 ≠ call)
            wire := s.wire ++ frame entry.2 } := by
        simp [step,found,result]
      rw [next]
      obtain ⟨items,octets,picked,fits⟩ := tracks.wire
      refine ⟨tracks.keyed,tracks.counter,?_,items ++ [(i,msg)],?_,?_,?_⟩
      · intro other mem
        exact tracks.waiting other (mem_of_mem_filter mem)
      · simp [octets,payload]
      · exact rel_append picked (Forall₂.cons (named ▸ logged) .nil)
      · intro item mem
        rcases mem_snoc.mp mem with old | rfl
        · exact fits item old
        · rw [payload,entryPacket,packet_length] at within
          exact within

theorem tracks_step {e} (small : ∀ entry ∈ e.encrypts, entry.2.length + 24 < 2 ^ 32) (ok : Succeeds aead s e) :
    Tracks aead key (log ++ e.encrypts) (out ++ e.writes) (step aead s e).1 := by
  cases e with
  | encrypt call msg =>
    rw [Event.writes,append_nil]
    exact tracks_encrypt tracks (small (call,msg) (by simp [Event.encrypts])) ok
  | write call =>
    rw [Event.encrypts,append_nil]
    exact tracks_write tracks ok

theorem tracks_run {events} (small : ∀ entry ∈ encrypted events, entry.2.length + 24 < 2 ^ 32)
    (along : Along (step aead) (Succeeds aead) s events) :
    Tracks aead key (log ++ encrypted events) (out ++ written events) (final (step aead) s events) := by
  induction events generalizing s log out with
  | nil => simpa [encrypted,written] using tracks
  | cons e rest ih =>
    have smallFirst : ∀ entry ∈ e.encrypts, entry.2.length + 24 < 2 ^ 32 :=
      fun entry mem => small entry (mem_append_left _ mem)
    have smallRest : ∀ entry ∈ encrypted rest, entry.2.length + 24 < 2 ^ 32 :=
      fun entry mem => small entry (mem_append_right _ mem)
    have later := ih (tracks_step tracks smallFirst along.1) smallRest along.2
    rw [append_assoc,append_assoc] at later
    exact later

end

def idle (sendKey recvKey : Key) : Sender := ⟨channelInit sendKey recvKey .strict,[],[]⟩

theorem tracks_idle (aead : Aead) (sendKey recvKey : Key) : Tracks aead sendKey [] [] (idle sendKey recvKey) := by
  refine ⟨rfl,rfl,?_,[],rfl,.nil,?_⟩
  · intro entry impossible
    cases impossible
  · intro item impossible
    cases impossible

theorem tracked_accepted_iff {recvKey} (tracks : Tracks aead key log out s) (once : (log.map Prod.fst).Nodup)
    (fewSealed : log.length ≤ 2 ^ 64) (fewOut : out.length ≤ 2 ^ 64) :
    (∀ got ∈ recvAll aead out.length (channelInit recvKey key .strict,s.wire), got.isSome) ↔
      out <+: log.map Prod.fst := by
  obtain ⟨items,octets,picked,fits⟩ := tracks.wire
  have count : out.length = items.length := picked.length_eq
  have small : ∀ data ∈ items.map (entryPacket aead key), data.length ≤ maxMessageSize := by
    rintro _ mem
    obtain ⟨item,among,rfl⟩ := mem_map.mp mem
    rw [entryPacket,packet_length]
    exact fits item among
  have messages := recvAll_frames aead small (channelInit recvKey key .strict)
  rw [length_map] at messages
  -- The packets on the stream carry as numbers the positions of their calls.
  have packets : items.map (entryPacket aead key) =
      (items.map (fun item => (UInt64.ofNat item.1,item.2))).map (numbered aead key) := by
    rw [map_map]
    rfl
  have numbers : (items.map (fun item => (UInt64.ofNat item.1,item.2))).map Prod.fst =
      (items.map Prod.fst).map UInt64.ofNat := by
    rw [map_map,map_map]
    rfl
  have positions : Forall₂ (fun call i => (log.map Prod.fst)[i]? = some call) out (items.map Prod.fst) := by
    rw [forall₂_map_right_iff]
    refine picked.imp ?_
    intro call item found
    rw [getElem?_map,found]
    rfl
  have below : ∀ i ∈ items.map Prod.fst, i < 2 ^ 64 := by
    intro i mem
    have inside := positions_inside positions i mem
    rw [length_map] at inside
    omega
  have room : 0 + (items.map Prod.fst).length ≤ 2 ^ 64 := by
    rw [length_map,← count]
    omega
  have short : ∀ item ∈ items.map (fun item => (UInt64.ofNat item.1,item.2)), item.2.length < 2 ^ 31 := by
    intro item mem
    obtain ⟨entry,among,rfl⟩ := mem_map.mp mem
    have within := fits entry among
    unfold maxMessageSize at within
    simp only
    omega
  rw [octets,count,messages,packets,isPrefix_iff_positions once positions,range_eq_range',
    ← countsFrom_positions room below,← numbers]
  exact accepts_all_iff rfl short

/-- The peer accepts every message just when the calls write in the order in which they encrypted. -/
theorem concurrent_sends_iff (sendKey recvKey : Key) (events : List Event) (few : events.length ≤ 2 ^ 64)
    (once : ((encrypted events).map Prod.fst).Nodup)
    (small : ∀ entry ∈ encrypted events, entry.2.length + 24 < 2 ^ 32)
    (along : Along (step aead) (Succeeds aead) (idle sendKey recvKey) events) :
    (∀ got ∈ recvAll aead (written events).length
        (channelInit recvKey sendKey .strict,(final (step aead) (idle sendKey recvKey) events).wire), got.isSome) ↔
      written events <+: (encrypted events).map Prod.fst := by
  have tracks := tracks_run (tracks_idle aead sendKey recvKey) small along
  rw [nil_append,nil_append] at tracks
  refine tracked_accepted_iff tracks once ?_ ?_
  · exact (encrypted_length_le events).trans few
  · exact (written_length_le events).trans few

theorem concurrent_sends_in_turn :
    (final (step checked) (idle keyA keyB) [.encrypt 1 [10],.encrypt 2 [20],.write 1,.write 2]).waiting = [] ∧
      ∀ got ∈ recvAll checked 2 (channelInit keyB keyA .strict,
        (final (step checked) (idle keyA keyB) [.encrypt 1 [10],.encrypt 2 [20],.write 1,.write 2]).wire), got.isSome :=
  ⟨by decide +kernel,
    (concurrent_sends_iff keyA keyB [.encrypt 1 [10],.encrypt 2 [20],.write 1,.write 2] (by decide) (by decide)
      (by decide) (by decide +kernel)).mpr (by decide)⟩

/-- The second call overtakes the first between the two locks: the peer rejects its message. -/
theorem overtaking_send_rejected :
    Along (step checked) (Succeeds checked) (idle keyA keyB) [.encrypt 1 [10],.encrypt 2 [20],.write 2,.write 1] ∧
      recvAll checked 2 (channelInit keyB keyA .strict,
        (final (step checked) (idle keyA keyB) [.encrypt 1 [10],.encrypt 2 [20],.write 2,.write 1]).wire) =
        [none,some [10]] := by
  decide +kernel

end

end Pigeon.SendOrder
