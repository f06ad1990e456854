import Pigeon.Framing
import Pigeon.KeySchedule

/-!
The Go session (`api.go`): the rendezvous decides which streams are handed out under which
names, and the keyring forks one AEAD channel for each name. A stream whose channel cannot be
derived carries its messages in the clear, exactly for names of more than 238 octets
(`stream_sealed_iff`).
-/
namespace Pigeon.GoSession
open Octets Sealing Runs Crypto Framing List
open KeySchedule (ascii SessionMaterial forkKey streamInfo streamChannel_eq)
open scoped KeySchedule

def discoveryStreamName : Bytes := 0 :: "pigeon.enumerate"
def lanControlStreamName : Bytes := 0 :: "pigeon.lan"
def goAwayStreamName : Bytes := 0 :: "pigeon.goaway"

def reservedStreamName (name : Bytes) : Bool :=
  name == discoveryStreamName || name == lanControlStreamName || name == goAwayStreamName

def defaultMaxBufferedStreams : Nat := 1

structure Rendezvous where
  /-- `pendingOpens`: the names that `AcceptStream` calls wait for. -/
  pendingOpens : List Bytes
  /-- `bufferedStreams`: the names of the streams that arrived unasked. -/
  bufferedStreams : List Bytes
  allowedStreams : Option (List Bytes)
  (draining closed discover preferLAN : Bool)

inductive Request
  /-- `OpenStream`, with whether the transport opens a stream. -/
  | openStream (name : Bytes) (transport : Bool)
  | acceptStream (name : Bytes)
  /-- The context of a waiting `AcceptStream` ends. -/
  | cancelAccept (name : Bytes)
  /-- What arrives first on a stream that the peer opened. -/
  | incoming (arrived : Bytes)
  | expireBuffered (name : Bytes)
  | primary
  | goAway
  | close

def nameAllowed (allowed : Option (List Bytes)) (name : Bytes) : Bool :=
  reservedStreamName name ||
    match allowed with
    | none => true
    | some names => names.contains name

/-- `deliverIncomingStream`: the stream goes to a waiting caller, is parked, or is reset. -/
def deliverIncomingStream (r : Rendezvous) (name : Bytes) : Rendezvous × Option Bytes :=
  if (r.draining || !nameAllowed r.allowedStreams name) && !reservedStreamName name then (r,none)
  else if r.pendingOpens.contains name then ({ r with pendingOpens := r.pendingOpens.erase name },some name)
  else if defaultMaxBufferedStreams ≤ r.bufferedStreams.count name then (r,none)
  else ({ r with bufferedStreams := r.bufferedStreams ++ [name] },none)

/-- `Session.enterDrain`. -/
def enterDrain (r : Rendezvous) : Rendezvous :=
  if r.draining then r else { r with draining := true, bufferedStreams := [] }

/-- A round of `Session.acceptLoop`. -/
def acceptIncoming (r : Rendezvous) (arrived : Bytes) : Rendezvous × Option Bytes :=
  match (readMessage arrived).2.bind decodeStreamHeader with
  | none => (r,none)
  | some name =>
    if name = discoveryStreamName ∧ r.discover then (r,some name)
    else if name = lanControlStreamName then (r,if r.preferLAN then some name else none)
    else if name = goAwayStreamName then (enterDrain r,none)
    else deliverIncomingStream r name

def rendezvous (r : Rendezvous) : Request → Rendezvous × Option Bytes
  | .openStream name transport =>
    if name = [] then (r,none)
    else if r.draining && !reservedStreamName name then (r,none)
    else if r.closed || !transport then (r,none)
    else
      match writeMessage (encodeStreamHeader name) with
      | none => (r,none)
      | some _ => (r,some name)
  | .acceptStream name =>
    if name = [] then (r,none)
    else if r.bufferedStreams.contains name then
      ({ r with bufferedStreams := r.bufferedStreams.erase name },some name)
    else if r.closed then (r,none)
    else ({ r with pendingOpens := r.pendingOpens ++ [name] },none)
  | .cancelAccept name => ({ r with pendingOpens := r.pendingOpens.erase name },none)
  | .incoming arrived => if r.closed then (r,none) else acceptIncoming r arrived
  | .expireBuffered name => ({ r with bufferedStreams := r.bufferedStreams.erase name },none)
  | .primary => (r,some [])
  | .goAway => (enterDrain r,none)
  | .close => ({ r with closed := true, pendingOpens := [], bufferedStreams := [] },none)

structure Stream where
  name : Bytes
  channel : Option Nat
deriving DecidableEq

/-- The part of `Session` that holds keys, and the streams handed out. -/
structure Keyring where
  material : Option SessionMaterial
  streamChans : List (Bytes × Channel)
  dgChannel : Option Channel
  streams : List Stream

structure Effects where
  used : Option (Key × Bytes)
  (wire got : Option Bytes)
deriving DecidableEq

def Effects.nothing : Effects := ⟨none,none,none⟩

@[simp] theorem nothing_used : Effects.nothing.used = none := rfl
@[simp] theorem nothing_wire : Effects.nothing.wire = none := rfl
@[simp] theorem nothing_got : Effects.nothing.got = none := rfl

variable {k : Keyring} {m : SessionMaterial} {st : Stream} {used : Option (Key × Bytes)}

section
variable (aead : Aead) (hmac : Bytes → Bytes → Key)

/-- `Channel.Encrypt`. -/
def cwireEncrypt (ch : Channel) (plaintext : Bytes) : Channel × Option Bytes :=
  channelEncrypt aead ch plaintext (8 + plaintext.length + 16)

/-- `Channel.Decrypt`. -/
def cwireDecrypt (ch : Channel) (data : Bytes) : Channel × Option Bytes :=
  if data.length < 8 + 16 then (ch,none) else channelDecrypt aead ch data data.length

/-- `Session.streamChannel`: the channel of a name, or `nil` when the session has no material or the derivation
    fails. -/
def streamChannel (k : Keyring) (name : Bytes) : Keyring × Option Nat :=
  match k.material with
  | none => (k,none)
  | some m =>
    match k.streamChans.findIdx? (·.1 = name) with
    | some a => (k,some a)
    | none =>
      match KeySchedule.streamChannel hmac m name with
      | none => (k,none)
      | some ch => ({ k with streamChans := k.streamChans ++ [(name,ch)] },some k.streamChans.length)

def hand (k : Keyring) (name : Bytes) : Keyring :=
  { (streamChannel hmac k name).1 with
    streams := (streamChannel hmac k name).1.streams ++ [⟨name,(streamChannel hmac k name).2⟩] }

/-- `Stream.Send`. -/
def send (k : Keyring) (i : Nat) (msg : Bytes) (transport : Bool) : Keyring × Effects :=
  match k.streams[i]? with
  | none => (k,.nothing)
  | some st =>
    match st.channel with
    | none => (k,{ Effects.nothing with wire := if transport then writeMessage msg else none })
    | some a =>
      match k.streamChans[a]? with
      | none => (k,.nothing)
      | some (name,ch) =>
        ({ k with streamChans := k.streamChans.set a (name,(cwireEncrypt aead ch msg).1) },
          { Effects.nothing with
            used := some (ch.sendKey,nonceOf ch.sendSeq)
            wire := (cwireEncrypt aead ch msg).2.bind (fun ct => if transport then writeMessage ct else none) })

/-- `Stream.Recv`. -/
def recv (k : Keyring) (i : Nat) (arrived : Bytes) : Keyring × Effects :=
  match k.streams[i]?, (readMessage arrived).2 with
  | some st, some raw =>
    match st.channel with
    | none => (k,{ Effects.nothing with got := some raw })
    | some a =>
      match k.streamChans[a]? with
      | none => (k,.nothing)
      | some (name,ch) =>
        ({ k with streamChans := k.streamChans.set a (name,(cwireDecrypt aead ch raw).1) },
          { Effects.nothing with got := (cwireDecrypt aead ch raw).2 })
  | _, _ => (k,.nothing)

def sendPart (k : Keyring) (plain : Bytes) : Keyring × Effects :=
  match k.dgChannel with
  | none => (k,.nothing)
  | some ch =>
    ({ k with dgChannel := some (cwireEncrypt aead ch plain).1 },
      { Effects.nothing with used := some (ch.sendKey,nonceOf ch.sendSeq), wire := (cwireEncrypt aead ch plain).2 })

def recvPart (k : Keyring) (ct : Bytes) : Keyring × Effects :=
  match k.dgChannel with
  | none => (k,.nothing)
  | some ch =>
    if ct = [] then (k,.nothing)
    else
      ({ k with dgChannel := some (cwireDecrypt aead ch ct).1 },
        { Effects.nothing with got := (cwireDecrypt aead ch ct).2 })

structure Session where
  meeting : Rendezvous
  keys : Keyring

def newSession (mat : Option SessionMaterial) (allowed : Option (List Bytes)) (discover preferLAN : Bool) : Session where
  meeting := ⟨[],[],allowed,false,false,discover,preferLAN⟩
  keys := ⟨mat,[],mat.bind (KeySchedule.datagramChannel hmac),[]⟩

inductive Call
  | request (what : Request)
  | send (i : Nat) (msg : Bytes) (transport : Bool)
  | recv (i : Nat) (arrived : Bytes)
  | sendPart (plain : Bytes)
  | recvPart (ct : Bytes)

/-- The calls of the application, with what arrives. -/
def step (s : Session) : Call → Session × Effects
  | .request what =>
    ({ meeting := (rendezvous s.meeting what).1
       keys := match (rendezvous s.meeting what).2 with
         | none => s.keys
         | some name => hand hmac s.keys name },.nothing)
  | .send i msg transport =>
    ({ s with keys := (send aead s.keys i msg transport).1 },(send aead s.keys i msg transport).2)
  | .recv i arrived => ({ s with keys := (recv aead s.keys i arrived).1 },(recv aead s.keys i arrived).2)
  | .sendPart plain => ({ s with keys := (sendPart aead s.keys plain).1 },(sendPart aead s.keys plain).2)
  | .recvPart ct => ({ s with keys := (recvPart aead s.keys ct).1 },(recvPart aead s.keys ct).2)

section
variable {hmac}

@[simp] theorem cwireEncrypt_state (ch : Channel) (p : Bytes) :
    (cwireEncrypt aead ch p).1 = { ch with sendSeq := ch.sendSeq + 1 } := by
  simp [cwireEncrypt,channelEncrypt,channelSeal]

@[simp] theorem cwireEncrypt_result (ch : Channel) (p : Bytes) :
    (cwireEncrypt aead ch p).2 = intReturn (packet aead ch.sendKey ch.sendSeq p) := by
  simp [cwireEncrypt,channelEncrypt,channelSeal]

/-- The pair that a send logs is the key and the nonce of its one encryption, and that is what goes out. -/
theorem send_logs {i msg transport key nonce} (logged : (send aead k i msg transport).2.used = some (key,nonce)) :
    ∃ seq, (send aead k i msg transport).2.wire = (intReturn (le64 seq ++ aead.encrypt key nonce (le64 seq) msg)).bind
      (fun ct => if transport then writeMessage ct else none) := by
  revert logged
  unfold send
  split
  next => exact nofun
  next =>
    split
    next => exact nofun
    next =>
      split
      next => exact nofun
      next =>
        rintro ⟨⟩
        exact ⟨_,by rw [cwireEncrypt_result]; rfl⟩

theorem sendPart_logs {plain key nonce} (logged : (sendPart aead k plain).2.used = some (key,nonce)) :
    ∃ seq, (sendPart aead k plain).2.wire = intReturn (le64 seq ++ aead.encrypt key nonce (le64 seq) plain) := by
  revert logged
  unfold sendPart
  split
  next => exact nofun
  next =>
    rintro ⟨⟩
    exact ⟨_,by rw [cwireEncrypt_result]; rfl⟩

theorem cwireDecrypt_state (ch : Channel) (data : Bytes) :
    ∃ recvSeq, (cwireDecrypt aead ch data).1 = { ch with recvSeq := recvSeq } := by
  unfold cwireDecrypt
  split
  · exact ⟨ch.recvSeq,rfl⟩
  · rcases channelDecrypt_cases aead ch data data.length with same | ⟨p,-,-,-,took⟩
    · exact ⟨ch.recvSeq,by rw [same]⟩
    · exact ⟨readLe64 data + 1,by rw [took]⟩

theorem opened_of_cwireDecrypt {ch data p} (small : data.length ≤ maxMessageSize)
    (got : (cwireDecrypt aead ch data).2 = some p) : opened aead ch.recvKey data = some p := by
  unfold cwireDecrypt at got
  split at got
  · cases got
  · rcases channelDecrypt_cases aead ch data data.length with same | ⟨q,opens,-,-,took⟩
    · rw [same] at got; cases got
    · have long := length_of_opened aead opens
      have short : q.length < 2 ^ 31 := by unfold maxMessageSize at small; omega
      rw [took,intReturn_of_lt short] at got
      cases got
      exact opens

variable (hmac) in
theorem streamChannel_cases (material : k.material = some m) (name : Bytes) :
    (∃ a ch, k.streamChans[a]? = some (name,ch) ∧ streamChannel hmac k name = (k,some a)) ∨
    (name ∉ k.streamChans.map Prod.fst ∧ name.length ≤ 238 ∧ streamChannel hmac k name =
        ({ k with streamChans := k.streamChans ++ [(name,channelInit (forkKey hmac m.sendKey (streamInfo name))
            (forkKey hmac m.recvKey (streamInfo name)) .strict)] },some k.streamChans.length)) ∨
    (238 < name.length ∧ streamChannel hmac k name = (k,none)) := by
  unfold streamChannel
  rw [material]
  cases found : k.streamChans.findIdx? (·.1 = name) with
  | some a =>
    obtain ⟨inside,here,-⟩ := findIdx?_eq_some_iff_getElem.mp found
    refine .inl ⟨a,k.streamChans[a].2,?_,by simp⟩
    rw [getElem?_eq_getElem inside]
    exact congrArg some (Prod.ext (of_decide_eq_true here) rfl)
  | none =>
    have absent : name ∉ k.streamChans.map Prod.fst := by
      intro mem
      obtain ⟨entry,among,same⟩ := mem_map.mp mem
      have other := findIdx?_eq_none_iff.mp found entry among
      simp [same] at other
    by_cases short : name.length ≤ 238
    · exact .inr (.inl ⟨absent,short,by simp [streamChannel_eq,short]⟩)
    · exact .inr (.inr ⟨by omega,by simp [streamChannel_eq,short]⟩)

variable (hmac) in
inductive Moves : Keyring → Keyring → Option (Key × Bytes) → Prop
  | same (k : Keyring) : Moves k k none
  | handed (k : Keyring) (name : Bytes) : Moves k (hand hmac k name) none
  | sealed {k : Keyring} {a : Nat} {name : Bytes} {ch : Channel} (held : k.streamChans[a]? = some (name,ch)) :
    Moves k { k with streamChans := k.streamChans.set a (name,{ ch with sendSeq := ch.sendSeq + 1 }) }
      (some (ch.sendKey,nonceOf ch.sendSeq))
  | unsealed {k : Keyring} {a : Nat} {name : Bytes} {ch : Channel} (recvSeq : UInt64)
    (held : k.streamChans[a]? = some (name,ch)) :
    Moves k { k with streamChans := k.streamChans.set a (name,{ ch with recvSeq := recvSeq }) } none
  | sealedPart {k : Keyring} {ch : Channel} (held : k.dgChannel = some ch) :
    Moves k { k with dgChannel := some { ch with sendSeq := ch.sendSeq + 1 } } (some (ch.sendKey,nonceOf ch.sendSeq))
  | unsealedPart {k : Keyring} {ch : Channel} (recvSeq : UInt64) (held : k.dgChannel = some ch) :
    Moves k { k with dgChannel := some { ch with recvSeq := recvSeq } } none

theorem send_moves (k : Keyring) (i : Nat) (msg : Bytes) (transport : Bool) :
    Moves hmac k (send aead k i msg transport).1 (send aead k i msg transport).2.used := by
  cases slot : k.streams[i]? with
  | none => simpa [send,slot] using Moves.same k
  | some st =>
    cases points : st.channel with
    | none => simpa [send,slot,points] using Moves.same k
    | some a =>
      cases held : k.streamChans[a]? with
      | none => simpa [send,slot,points,held] using Moves.same k
      | some entry => simpa [send,slot,points,held] using Moves.sealed held

theorem recv_moves (k : Keyring) (i : Nat) (arrived : Bytes) :
    Moves hmac k (recv aead k i arrived).1 (recv aead k i arrived).2.used := by
  cases slot : k.streams[i]? with
  | none => simpa [recv,slot] using Moves.same k
  | some st =>
    cases read : (readMessage arrived).2 with
    | none => simpa [recv,slot,read] using Moves.same k
    | some raw =>
      cases points : st.channel with
      | none => simpa [recv,slot,read,points] using Moves.same k
      | some a =>
        cases held : k.streamChans[a]? with
        | none => simpa [recv,slot,read,points,held] using Moves.same k
        | some entry =>
          obtain ⟨recvSeq,after⟩ := cwireDecrypt_state aead entry.2 raw
          simpa [recv,slot,read,points,held,after] using Moves.unsealed recvSeq held

theorem sendPart_moves (k : Keyring) (plain : Bytes) :
    Moves hmac k (sendPart aead k plain).1 (sendPart aead k plain).2.used := by
  cases held : k.dgChannel with
  | none => simpa [sendPart,held] using Moves.same k
  | some ch => simpa [sendPart,held] using Moves.sealedPart held

theorem recvPart_moves (k : Keyring) (ct : Bytes) :
    Moves hmac k (recvPart aead k ct).1 (recvPart aead k ct).2.used := by
  cases held : k.dgChannel with
  | none => simpa [recvPart,held] using Moves.same k
  | some ch =>
    by_cases empty : ct = []
    · simpa [recvPart,held,empty] using Moves.same k
    · obtain ⟨recvSeq,after⟩ := cwireDecrypt_state aead ch ct
      simpa [recvPart,held,empty,after] using Moves.unsealedPart recvSeq held

theorem step_moves (s : Session) (call : Call) :
    Moves hmac s.keys (step aead hmac s call).1.keys (step aead hmac s call).2.used := by
  cases call with
  | request what =>
    simp only [step]
    cases handed : (rendezvous s.meeting what).2 with
    | none => exact .same s.keys
    | some name => exact .handed s.keys name
  | send i msg transport => exact send_moves aead s.keys i msg transport
  | recv i arrived => exact recv_moves aead s.keys i arrived
  | sendPart plain => exact sendPart_moves aead s.keys plain
  | recvPart ct => exact recvPart_moves aead s.keys ct

def Held (k : Keyring) (st : Stream) : Prop :=
  match st.channel with
  | none => 238 < st.name.length
  | some a => ∃ ch, k.streamChans[a]? = some (st.name,ch)

variable (hmac) in
structure Bound (m : SessionMaterial) (k : Keyring) : Prop where
  material : k.material = some m
  keyed : ∀ (a : Nat) name ch, k.streamChans[a]? = some (name,ch) → name.length ≤ 238 ∧
    ch.sendKey = forkKey hmac m.sendKey (streamInfo name) ∧ ch.recvKey = forkKey hmac m.recvKey (streamInfo name)
  held : ∀ st ∈ k.streams, Held k st

theorem bound_new (m : SessionMaterial) (allowed : Option (List Bytes)) (discover preferLAN : Bool) :
    Bound hmac m (newSession hmac (some m) allowed discover preferLAN).keys :=
  ⟨rfl,by simp [newSession],by simp [newSession]⟩

theorem bound_set (bound : Bound hmac m k) {a name ch ch'} (here : k.streamChans[a]? = some (name,ch))
    (sendKey : ch'.sendKey = ch.sendKey) (recvKey : ch'.recvKey = ch.recvKey) :
    Bound hmac m { k with streamChans := k.streamChans.set a (name,ch') } := by
  have inside : a < k.streamChans.length := Sequence.lt_of_getElem? here
  refine ⟨bound.material,?_,?_⟩
  · intro b other other' found
    rcases Sequence.getElem?_set_cases found with ⟨rfl,same⟩ | ⟨-,old⟩
    · cases same
      obtain ⟨short,send,recv⟩ := bound.keyed b name ch here
      exact ⟨short,sendKey.trans send,recvKey.trans recv⟩
    · exact bound.keyed b other other' old
  · intro st mem
    have held := bound.held st mem
    unfold Held at held ⊢
    split
    · rename_i none
      simpa [none] using held
    · rename_i b points
      simp only [points] at held
      obtain ⟨old,found⟩ := held
      by_cases same : a = b
      · subst same
        cases (found.symm.trans here : some (st.name,old) = some (name,ch))
        exact ⟨ch',by simp [inside]⟩
      · exact ⟨old,by rw [getElem?_set_ne same]; exact found⟩

theorem held_append (held : Held k st) (entry : Bytes × Channel) :
    Held { k with streamChans := k.streamChans ++ [entry] } st := by
  unfold Held at held ⊢
  cases points : st.channel with
  | none => simpa [points] using held
  | some a =>
    simp only [points] at held ⊢
    obtain ⟨ch,found⟩ := held
    exact ⟨ch,Sequence.getElem?_append_some found⟩

theorem bound_hand (bound : Bound hmac m k) (name : Bytes) : Bound hmac m (hand hmac k name) := by
  rcases streamChannel_cases hmac bound.material name with
    ⟨a,ch,found,same⟩ | ⟨-,short,fresh⟩ | ⟨long,none⟩
  · simp only [hand,same]
    refine { bound with held := ?_ }
    exact Sequence.forall_mem_snoc.mpr ⟨bound.held,⟨ch,found⟩⟩
  · simp only [hand,fresh]
    refine ⟨bound.material,?_,?_⟩
    · intro a other ch found
      rw [getElem?_append] at found
      split at found
      · exact bound.keyed a other ch found
      · obtain ⟨-,rfl,rfl⟩ : a - k.streamChans.length = 0 ∧ name = other ∧ _ = ch := by
          simpa [getElem?_singleton,Prod.ext_iff] using found
        exact ⟨short,rfl,rfl⟩
    · intro st mem
      rcases Sequence.mem_snoc.mp mem with old | new
      · exact held_append (bound.held st old) _
      · rw [new]
        exact ⟨_,getElem?_concat_length⟩
  · simp only [hand,none]
    refine { bound with held := ?_ }
    exact Sequence.forall_mem_snoc.mpr ⟨bound.held,long⟩

theorem bound_moves {k' : Keyring} (bound : Bound hmac m k) (moves : Moves hmac k k' used) : Bound hmac m k' := by
  cases moves with
  | same => exact bound
  | handed name => exact bound_hand bound name
  | sealed here => exact bound_set bound here rfl rfl
  | unsealed recvSeq here => exact bound_set bound here rfl rfl
  | sealedPart | unsealedPart => exact { bound with }

variable (hmac) in
theorem streamChannel_frame (k : Keyring) (name : Bytes) :
    (streamChannel hmac k name).1.material = k.material ∧ (streamChannel hmac k name).1.streams = k.streams ∧
      ∃ more, (streamChannel hmac k name).1.streamChans = k.streamChans ++ more := by
  unfold streamChannel
  split
  · exact ⟨rfl,rfl,[],by simp⟩
  · split
    · exact ⟨rfl,rfl,[],by simp⟩
    · split
      · exact ⟨rfl,rfl,[],by simp⟩
      · exact ⟨rfl,rfl,_,rfl⟩

theorem material_moves {k'} (moves : Moves hmac k k' used) : k'.material = k.material := by
  cases moves with
  | handed name => exact (streamChannel_frame hmac k name).1
  | same => rfl
  | sealed => rfl
  | unsealed => rfl
  | sealedPart => rfl
  | unsealedPart => rfl

theorem streams_moves {k' : Keyring} (moves : Moves hmac k k' used) {i : Nat} (here : k.streams[i]? = some st) :
    k'.streams[i]? = some st := by
  cases moves with
  | handed name =>
    simp only [hand,(streamChannel_frame hmac k name).2.1]
    exact Sequence.getElem?_append_some here
  | same | sealed | unsealed | sealedPart | unsealedPart => exact here

variable (hmac) in
/-- What `Send` writes on the stream `i` is the sealing of its message, and what `Recv` returns is what was opened. -/
def SealedStep (m : SessionMaterial) (i : Nat) (name : Bytes) (s : Session) : Call → Prop
  | .send j msg transport =>
    j = i → ∀ octets, (step aead hmac s (.send j msg transport)).2.wire = some octets →
      ∃ seq ct, intReturn (packet aead (forkKey hmac m.sendKey (streamInfo name)) seq msg) = some ct ∧ octets = frame ct
  | .recv j arrived =>
    j = i → ∀ p, (step aead hmac s (.recv j arrived)).2.got = some p → ∃ raw, (readMessage arrived).2 = some raw ∧
        opened aead (forkKey hmac m.recvKey (streamInfo name)) raw = some p
  | _ => True

theorem sealedStep_of_bound {i : Nat} {s : Session} (bound : Bound hmac m s.keys)
    (here : s.keys.streams[i]? = some st) (short : st.name.length ≤ 238) (call : Call) :
    SealedStep aead hmac m i st.name s call := by
  have held := bound.held st (mem_of_getElem? here)
  cases points : st.channel with
  | none =>
    simp only [Held,points] at held
    omega
  | some a =>
    simp only [Held,points] at held
    obtain ⟨ch,found⟩ := held
    obtain ⟨-,sendKey,recvKey⟩ := bound.keyed a st.name ch found
    cases call with
    | send j msg transport =>
      rintro rfl octets wrote
      simp only [step,send,here,points,found,cwireEncrypt_result] at wrote
      obtain ⟨ct,returned,written⟩ := Option.bind_eq_some_iff.mp wrote
      refine ⟨ch.sendSeq,ct,by rw [← sendKey]; exact returned,?_⟩
      cases transport with
      | false => simp at written
      | true => exact (writeMessage_eq_some.mp (by simpa using written)).2
    | recv j arrived =>
      rintro rfl p got
      cases read : (readMessage arrived).2 with
      | none => simp [step,recv,here,read] at got
      | some raw =>
        simp only [step,recv,here,read,points,found] at got
        refine ⟨raw,rfl,?_⟩
        rw [← recvKey]
        exact opened_of_cwireDecrypt aead (length_of_readMessage read) got
    | request what => trivial
    | sendPart plain => trivial
    | recvPart ct => trivial

theorem not_sealedStep {i : Nat} {s : Session} (here : s.keys.streams[i]? = some st) (without : st.channel = none) :
    ¬ SealedStep aead hmac m i st.name s (.send i [] true) := by
  intro promise
  have wrote : (step aead hmac s (.send i [] true)).2.wire = some (frame []) := by
    simp [step,send,here,without,writeMessage]
  obtain ⟨seq,ct,returned,same⟩ := promise rfl _ wrote
  rw [intReturn_of_lt (by simp)] at returned
  have lengths := congrArg length same
  rw [← Option.some.inj returned] at lengths
  simp [frame] at lengths

/-- A stream that was handed out seals and authenticates everything from then on if and only if its name has at most
    238 octets. -/
theorem stream_sealed_iff (m : SessionMaterial) (allowed : Option (List Bytes)) (discover preferLAN : Bool)
    (calls : List Call) (i : Nat) (st : Stream)
    (handed : (final (step aead hmac) (newSession hmac (some m) allowed discover preferLAN) calls).keys.streams[i]? =
      some st) :
    (∀ later, Along (step aead hmac) (SealedStep aead hmac m i st.name)
      (final (step aead hmac) (newSession hmac (some m) allowed discover preferLAN) calls) later) ↔
    st.name.length ≤ 238 := by
  have bound : Bound hmac m
      (final (step aead hmac) (newSession hmac (some m) allowed discover preferLAN) calls).keys :=
    final_invariant (I := fun s => Bound hmac m s.keys) (fun s call ih _ => bound_moves ih (step_moves aead s call))
      (bound_new m allowed discover preferLAN) (along_of_forall (fun _ _ => trivial))
  constructor
  · intro promises
    by_contra long
    have held := bound.held st (mem_of_getElem? handed)
    cases points : st.channel with
    | none => exact not_sealedStep aead handed points (promises [.send i [] true]).1
    | some a =>
      simp only [Held,points] at held
      obtain ⟨ch,found⟩ := held
      exact long (bound.keyed a st.name ch found).1
  · intro short later
    have along : Along (step aead hmac) (fun s _ => (Bound hmac m s.keys ∧ s.keys.streams[i]? = some st) ∧ True)
        (final (step aead hmac) (newSession hmac (some m) allowed discover preferLAN) calls) later :=
      along_of_invariant (fun s call both => ⟨bound_moves both.1 (step_moves aead s call),
        streams_moves (step_moves aead s call) both.2⟩) ⟨bound,handed⟩ (fun _ _ => trivial)
    exact along_mono (fun s call both => sealedStep_of_bound aead both.1.1 both.1.2 short call) along

end

end

theorem stream_sealed_iff_chat : (∀ later, Along (step checked mixed) (SealedStep checked mixed ⟨keyA,keyB⟩ 0 "chat")
      (final (step checked mixed) (newSession mixed (some ⟨keyA,keyB⟩) none false false)
        [.request (.openStream "chat" true)]) later) ↔ (ascii "chat").length ≤ 238 :=
  stream_sealed_iff checked ⟨keyA,keyB⟩ none false false [.request (.openStream "chat" true)] 0
    ⟨"chat",some 0⟩ (by decide +kernel)

def longName : Bytes := replicate 239 97

/-- A stream under a name of 239 octets, opened here or by the peer, writes its messages as they are and returns
    whatever arrives. -/
theorem long_name_in_the_clear : answers (step checked mixed) (newSession mixed (some ⟨keyA,keyB⟩) none false false)
        [.request (.openStream longName true),.send 0 [1,2,3] true,.recv 0 (frame [7])] =
      [.nothing,⟨none,some (frame [1,2,3]),none⟩,⟨none,none,some [7]⟩] ∧
    answers (step checked mixed) (newSession mixed (some ⟨keyA,keyB⟩) none false false)
        [.request (.acceptStream longName),.request (.incoming (frame (encodeStreamHeader longName))),
          .send 0 [1,2,3] true] =
      [.nothing,.nothing,⟨none,some (frame [1,2,3]),none⟩] := by
  decide +kernel

end Pigeon.GoSession
