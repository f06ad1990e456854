import Pigeon.CSession
import Pigeon.Runes

/-!
How the cgo bridge hands Go strings to the C library (`cwire/connect.go`, `cwire/listener.go`,
`cwire/session.go`, `cwire/gotransport.go`): arrays of 64 octets, read up to the first NUL.
Some loops run over characters and leave the later octets of one zero. `names_received_iff`
says which strings without NUL arrive exactly.
-/
namespace Pigeon.CwireNames
open Octets Sealing Runes Crypto Framing KeySchedule List
open CSession (streamAead streamAead_eq pigeonMaxNameLen)

def nameBuf : Bytes := replicate 64 0

def copyOctets (buf b : Bytes) : Bytes := b ++ buf.drop b.length

structure PairingRecord where
  (peerInstanceID localPrivKey localPubKey peerPubKey : Bytes)

structure DatagramChannel where
  name : Bytes
  id : UInt64

/-- `pigeon_pairing_record`. -/
structure CRecord where
  (peerInstanceId localPrivateKey localPublicKey peerPublicKey : Bytes)

structure DgchannelDef where
  name : Bytes
  channelId : UInt64

/-- The arguments of `pigeon_connect_on_transport`. -/
structure Handed where
  peerInstanceId : Bytes
  deviceId : Option Bytes
  record : Option CRecord
  datagrams : List DgchannelDef

def marshalDatagrams (copy : Bytes → Bytes → Bytes) (tooLong : String) :
    List DatagramChannel → Except String (List DgchannelDef)
  | [] => .ok []
  | dc :: rest =>
    if 64 ≤ dc.name.length then .error tooLong
    else (marshalDatagrams copy tooLong rest).map (⟨copy nameBuf dc.name,dc.id⟩ :: ·)

structure ConnectArgs where
  (ref primary : Bool)
  (peerInstanceID deviceID : Bytes)
  record : Option PairingRecord
  datagrams : List DatagramChannel

def connectRecord : Option PairingRecord → Except String (Option CRecord)
  | none => .ok none
  | some r =>
    if r.localPrivKey.length ≠ 32 ∨ r.localPubKey.length ≠ 32 ∨ r.peerPubKey.length ≠ 32 then
      .error "cwire: Connect: PairingRecord keys must be 32 bytes"
    else if 64 ≤ r.peerInstanceID.length then .error "cwire: Connect: PeerInstanceID too long in PairingRecord"
    else .ok (some ⟨(copyRange nameBuf r.peerInstanceID).set r.peerInstanceID.length 0,
      r.localPrivKey,r.localPubKey,r.peerPubKey⟩)

def connect : Option ConnectArgs → Except String Handed
  | none => .error "cwire: Connect: args is nil"
  | some args =>
    if !args.ref then .error "cwire: Connect: nil GoTransportRef"
    else if !args.primary then .error "cwire: Connect: nil primary stream handle"
    else if args.peerInstanceID = [] then .error "cwire: Connect: PeerInstanceID required"
    else if args.record.isSome ∧ args.deviceID = [] then
      .error "cwire: Connect: DeviceID required in activation mode"
    else if args.record.isNone ∧ args.deviceID ≠ [] then
      .error "cwire: Connect: DeviceID must be empty in pairing mode"
    else if 16 < args.datagrams.length then .error "cwire: Connect: too many datagram channels"
    else do
      let record ← connectRecord args.record
      let datagrams ← marshalDatagrams copyRange "cwire: Connect: datagram channel name too long" args.datagrams
      return ⟨cstr args.peerInstanceID,if args.deviceID = [] then none else some (cstr args.deviceID),record,datagrams⟩

/-- The record as `ConnectOnTransport` and `cwireGoResolve` copy it. -/
def copyRecord (r : PairingRecord) : CRecord :=
  ⟨copyOctets nameBuf (r.peerInstanceID.take (if 64 ≤ r.peerInstanceID.length then 63 else r.peerInstanceID.length)),
    key r.localPrivKey,key r.localPubKey,key r.peerPubKey⟩
where
  key (k : Bytes) : Bytes := if k.length = 32 then k else replicate 32 0

def connectOnTransport (ref primaryHandle : Bool) (peerInstanceID deviceID : Bytes) (record : Option PairingRecord)
    (datagrams : List DatagramChannel) : Except String Handed :=
  if !ref then .error "cwire: ConnectOnTransport: nil ref"
  else if !primaryHandle then .error "cwire: ConnectOnTransport: nil primary handle"
  else if peerInstanceID = [] then .error "cwire: ConnectOnTransport: empty peerInstanceID"
  else match record with
  | none => .error "cwire: ConnectOnTransport: nil record"
  | some r =>
    if deviceID = [] then .error "cwire: ConnectOnTransport: empty deviceID"
    else if 16 < datagrams.length then .error "cwire: ConnectOnTransport: too many datagram channels"
    else
      (marshalDatagrams copyOctets "cwire: ConnectOnTransport: datagram channel name too long" datagrams).map
        (⟨cstr peerInstanceID,some (cstr deviceID),some (copyRecord r),·⟩)

/-- `cwireGoResolve`. -/
def goResolve (resolver : Bytes → Option PairingRecord × Bool) (deviceID : Bytes) : Option CRecord :=
  match resolver (cstr deviceID) with
  | (some r,true) => some (copyRecord r)
  | _ => none

def newSession (nilTransport : String) (transport ch : Bool) (datagrams : List DatagramChannel) :
    Except String (List DgchannelDef) :=
  if !transport then .error nilTransport
  else if !ch then .error "cwire: nil channel"
  else if 16 < datagrams.length then .error "cwire: too many datagram channels"
  else marshalDatagrams copyOctets "cwire: datagram channel name too long" datagrams

def newLoopbackSession := newSession "cwire: nil loopback"
def newGoSession := newSession "cwire: nil GoTransportRef"

def decodeStreamHeader (buf : Bytes) : Except String Bytes :=
  if buf = [] then .error "cwire: empty buf"
  else match wireStreamHeaderDecode buf 256 with
  | none => .error "cwire: decode_stream_header failed"
  | some name => .ok name

structure Accepted where
  (name cName : Bytes)
  aead : Option Channel

section
variable (hmac : Bytes → Bytes → Key)

/-- `pigeon_stream_bind_aead` on an accepted stream, in a session with keys or without. -/
def bindStream (keys : Option SessionMaterial) (name cName : Bytes) : Except String Accepted :=
  match keys with
  | none => .ok ⟨name,cName,none⟩
  | some m =>
    match streamAead hmac m cName with
    | none => .error "cwire: pigeon_stream_bind_aead failed"
    | some ch => .ok ⟨name,cName,some ch⟩

def acceptHeader (keys : Option SessionMaterial) (hdr : Bytes) : Except String Accepted :=
  match decodeStreamHeader hdr with
  | .error e => .error e
  | .ok name =>
    if 64 ≤ name.length then .error "cwire: accepted name too long"
    else bindStream hmac keys name ((copyRange nameBuf name).set name.length 0)

/-- `Loopback.AcceptStreamWithHeader`. -/
def acceptStreamWithHeader (keys : Option SessionMaterial) : Option Bytes → Except String Accepted
  | none => .error "cwire: accept_with_header failed"
  | some hdr => acceptHeader hmac keys hdr

/-- `AcceptStreamFromGo`, with what the transport's `AcceptStream` and `RecvOnStream` give. -/
def acceptStreamFromGo (keys : Option SessionMaterial) (ref : Bool) (arrived : Except String Bytes) :
    Except String Accepted :=
  if !ref then .error "cwire: nil GoTransportRef"
  else arrived.bind (acceptHeader hmac keys)

end

inductive Way
  | octets
  | runes
  | cut

def Way.Keeps : Way → Bytes → Prop
  | .octets, _ => True
  | .runes, s => SingleOctets s
  | .cut, s => s.length < 64

/-- A call that is accepted passes the string `s` as the array `buf`. -/
inductive Passed : Way → Bytes → Bytes → Prop
  | connectName {args handed} {i : Nat} {dc : DatagramChannel} {d : DgchannelDef} : connect (some args) = .ok handed →
      args.datagrams[i]? = some dc → handed.datagrams[i]? = some d → Passed .runes dc.name d.name
  | connectRecord {args handed} {r : PairingRecord} {c : CRecord} : connect (some args) = .ok handed →
      args.record = some r → handed.record = some c → Passed .runes r.peerInstanceID c.peerInstanceId
  | transportName {ref primary peer device record datagrams handed} {i : Nat} {dc : DatagramChannel} {d : DgchannelDef} :
      connectOnTransport ref primary peer device record datagrams = .ok handed → datagrams[i]? = some dc →
      handed.datagrams[i]? = some d → Passed .octets dc.name d.name
  | transportRecord {ref primary peer device datagrams handed} {r : PairingRecord} {c : CRecord} :
      connectOnTransport ref primary peer device (some r) datagrams = .ok handed → handed.record = some c →
      Passed .cut r.peerInstanceID c.peerInstanceId
  | resolved {resolver device} {r : PairingRecord} {c : CRecord} : resolver (cstr device) = (some r,true) →
      goResolve resolver device = some c → Passed .cut r.peerInstanceID c.peerInstanceId
  | loopbackName {lb ch datagrams defs} {i : Nat} {dc : DatagramChannel} {d : DgchannelDef} :
      newLoopbackSession lb ch datagrams = .ok defs → datagrams[i]? = some dc → defs[i]? = some d →
      Passed .octets dc.name d.name
  | goName {ref ch datagrams defs} {i : Nat} {dc : DatagramChannel} {d : DgchannelDef} :
      newGoSession ref ch datagrams = .ok defs → datagrams[i]? = some dc → defs[i]? = some d →
      Passed .octets dc.name d.name
  | loopbackStream {hmac keys arrived} {st : Accepted} : acceptStreamWithHeader hmac keys arrived = .ok st →
      Passed .runes st.name st.cName
  | goStream {hmac keys ref arrived} {st : Accepted} : acceptStreamFromGo hmac keys ref arrived = .ok st →
      Passed .runes st.name st.cName

variable {defs : List DgchannelDef} {l : List DatagramChannel} {tooLong : String} {keys : Option SessionMaterial}

variable {copy : Bytes → Bytes → Bytes}

theorem marshalDatagrams_ok (marshalled : marshalDatagrams copy tooLong l = .ok defs) :
    (∀ dc ∈ l, dc.name.length < 64) ∧ defs = l.map (fun dc => ⟨copy nameBuf dc.name,dc.id⟩) := by
  induction l generalizing defs with
  | nil =>
    cases marshalled
    exact ⟨by simp,rfl⟩
  | cons dc rest ih =>
    rw [marshalDatagrams] at marshalled
    split at marshalled
    · cases marshalled
    next short =>
      cases later : marshalDatagrams copy tooLong rest with
      | error e => simp [later,Except.map] at marshalled
      | ok others =>
        rw [later] at marshalled
        cases marshalled
        obtain ⟨fit,rfl⟩ := ih later
        refine ⟨?_,rfl⟩
        intro x mem
        rcases mem_cons.mp mem with rfl | mem
        · exact Nat.not_le.mp short
        · exact fit x mem

variable {dc : DatagramChannel} {d : DgchannelDef}

theorem marshalled_name (marshalled : marshalDatagrams copy tooLong l = .ok defs) {i : Nat} (here : l[i]? = some dc)
    (there : defs[i]? = some d) : dc.name.length < 64 ∧ d.name = copy nameBuf dc.name := by
  obtain ⟨fit,rfl⟩ := marshalDatagrams_ok marshalled
  rw [getElem?_map,here] at there
  cases there
  exact ⟨fit dc (mem_of_getElem? here),rfl⟩

variable {r : PairingRecord}

theorem connectRecord_ok {c : CRecord} (copied : connectRecord (some r) = .ok (some c)) :
    r.peerInstanceID.length < 64 ∧ c.peerInstanceId = copyRange nameBuf r.peerInstanceID := by
  rw [connectRecord] at copied
  split at copied
  · cases copied
  · split at copied
    · cases copied
    next short =>
      cases copied
      have fits := Nat.not_le.mp short
      exact ⟨fits,set_copyRange fits⟩

variable {handed : Handed}

theorem connect_ok {args : ConnectArgs} (accepted : connect (some args) = .ok handed) :
    connectRecord args.record = .ok handed.record ∧
      marshalDatagrams copyRange "cwire: Connect: datagram channel name too long" args.datagrams =
        .ok handed.datagrams := by
  simp only [connect] at accepted
  repeat (split at accepted; cases accepted)
  cases record : connectRecord args.record with
  | error e =>
    rw [record] at accepted
    cases accepted
  | ok r =>
    cases datagrams : marshalDatagrams copyRange "cwire: Connect: datagram channel name too long" args.datagrams with
    | error e =>
      rw [record,datagrams] at accepted
      cases accepted
    | ok defs =>
      rw [record,datagrams] at accepted
      cases accepted
      exact ⟨rfl,rfl⟩

variable {datagrams : List DatagramChannel}

theorem connectOnTransport_ok {ref primary : Bool} {peer device : Bytes} {record : Option PairingRecord}
    (accepted : connectOnTransport ref primary peer device record datagrams = .ok handed) :
    handed.record = record.map copyRecord ∧
      marshalDatagrams copyOctets "cwire: ConnectOnTransport: datagram channel name too long" datagrams =
        .ok handed.datagrams := by
  cases record with
  | none =>
    simp only [connectOnTransport] at accepted
    repeat (split at accepted; cases accepted)
    cases accepted
  | some r =>
    simp only [connectOnTransport] at accepted
    repeat (split at accepted; cases accepted)
    cases marshalled : marshalDatagrams copyOctets "cwire: ConnectOnTransport: datagram channel name too long"
        datagrams with
    | error e =>
      rw [marshalled] at accepted
      cases accepted
    | ok defs =>
      rw [marshalled] at accepted
      cases accepted
      exact ⟨rfl,rfl⟩

theorem newSession_ok {nilTransport : String} {transport ch : Bool}
    (accepted : newSession nilTransport transport ch datagrams = .ok defs) :
    marshalDatagrams copyOctets "cwire: datagram channel name too long" datagrams = .ok defs := by
  simp only [newSession] at accepted
  repeat (split at accepted; cases accepted)
  exact accepted

variable {hdr : Bytes}

theorem acceptHeader_eq (hmac : Bytes → Bytes → Key) (keys : Option SessionMaterial) {name}
    (decoded : decodeStreamHeader hdr = .ok name) (short : name.length < 64) :
    acceptHeader hmac keys hdr = .ok ⟨name,copyRange nameBuf name,keys.map (fun m =>
      channelInit (forkKey hmac m.sendKey (streamInfo (cstr (copyRange nameBuf name))))
        (forkKey hmac m.recvKey (streamInfo (cstr (copyRange nameBuf name)))) .strict)⟩ := by
  have fits : (cstr (copyRange nameBuf name)).length < pigeonMaxNameLen :=
    Nat.lt_of_le_of_lt (length_cstr_copyRange_le short) short
  rw [acceptHeader,decoded]
  simp only [Nat.not_le.mpr short,if_false]
  rw [nameBuf,set_copyRange short]
  cases keys with
  | none => rfl
  | some m =>
    have bound := streamAead_eq hmac m fits
    rw [nameBuf] at bound
    simp only [bindStream,bound]
    rfl

variable {st : Accepted}

theorem acceptHeader_ok {hmac} (accepted : acceptHeader hmac keys hdr = .ok st) :
    st.name.length < 64 ∧ st.cName = copyRange nameBuf st.name := by
  cases decoded : decodeStreamHeader hdr with
  | error e =>
    rw [acceptHeader,decoded] at accepted
    cases accepted
  | ok name =>
    by_cases short : name.length < 64
    · rw [acceptHeader_eq hmac keys decoded short] at accepted
      cases accepted
      exact ⟨short,rfl⟩
    · rw [acceptHeader,decoded] at accepted
      simp only [Nat.not_lt.mp short,if_true] at accepted
      cases accepted

theorem acceptStreamWithHeader_ok {hmac : Bytes → Bytes → Key} {arrived : Option Bytes}
    (accepted : acceptStreamWithHeader hmac keys arrived = .ok st) :
    st.name.length < 64 ∧ st.cName = copyRange nameBuf st.name := by
  cases arrived with
  | none => cases accepted
  | some hdr => exact acceptHeader_ok accepted

theorem acceptStreamFromGo_ok {hmac : Bytes → Bytes → Key} {ref : Bool} {arrived : Except String Bytes}
    (accepted : acceptStreamFromGo hmac keys ref arrived = .ok st) :
    st.name.length < 64 ∧ st.cName = copyRange nameBuf st.name := by
  rw [acceptStreamFromGo] at accepted
  split at accepted
  · cases accepted
  · cases arrived with
    | error e => cases accepted
    | ok hdr => exact acceptHeader_ok accepted

theorem read_octets {s} (clean : 0 ∉ s) (short : s.length < 64) : cstr (copyOctets nameBuf s) = s := by
  obtain ⟨room,rest⟩ : ∃ room, 64 - s.length = room + 1 := ⟨63 - s.length,by omega⟩
  rw [copyOctets,nameBuf,drop_replicate,rest,replicate_succ,cstr_append_zero clean]

theorem read_cut_iff (clean : 0 ∉ r.peerInstanceID) :
    cstr (copyRecord r).peerInstanceId = r.peerInstanceID ↔ r.peerInstanceID.length < 64 := by
  have part : 0 ∉ r.peerInstanceID.take 63 := fun mem => clean (mem_of_mem_take mem)
  by_cases short : r.peerInstanceID.length < 64
  · refine ⟨fun _ => short,fun _ => ?_⟩
    rw [copyRecord]
    simp only [Nat.not_le.mpr short,if_false,take_length]
    exact read_octets clean short
  · refine ⟨fun same => ?_,fun fits => absurd fits short⟩
    rw [copyRecord] at same
    simp only [Nat.not_lt.mp short,if_true] at same
    rw [read_octets part (by simp)] at same
    have := congrArg length same
    simp only [length_take] at this
    omega

theorem read_marshalled (marshalled : marshalDatagrams copyOctets tooLong l = .ok defs) {i : Nat}
    (here : l[i]? = some dc) (there : defs[i]? = some d) (clean : 0 ∉ dc.name) : cstr d.name = dc.name := by
  obtain ⟨short,copied⟩ := marshalled_name marshalled here there
  rw [copied,read_octets clean short]

theorem read_iff {way : Way} {s buf : Bytes} (passed : Passed way s buf) (clean : 0 ∉ s) :
    cstr buf = s ↔ way.Keeps s := by
  -- The loops over a string leave the same array, whatever they are part of.
  have ranged : s.length < 64 ∧ buf = copyRange nameBuf s → (cstr buf = s ↔ SingleOctets s) := by
    rintro ⟨short,rfl⟩
    exact cstr_copyRange_iff clean short
  cases passed with
  | connectName accepted here there => exact ranged (marshalled_name (connect_ok accepted).2 here there)
  | connectRecord accepted given handed =>
    have copied := (connect_ok accepted).1
    rw [given,handed] at copied
    exact ranged (connectRecord_ok copied)
  | transportName accepted here there =>
    exact iff_of_true (read_marshalled (connectOnTransport_ok accepted).2 here there clean) trivial
  | transportRecord accepted handed =>
    rw [(connectOnTransport_ok accepted).1] at handed
    cases handed
    exact read_cut_iff clean
  | resolved found answered =>
    rw [goResolve,found] at answered
    cases answered
    exact read_cut_iff clean
  | loopbackName accepted here there =>
    exact iff_of_true (read_marshalled (newSession_ok accepted) here there clean) trivial
  | goName accepted here there => exact iff_of_true (read_marshalled (newSession_ok accepted) here there clean) trivial
  | loopbackStream accepted => exact ranged (acceptStreamWithHeader_ok accepted)
  | goStream accepted => exact ranged (acceptStreamFromGo_ok accepted)

def SameKeys (hmac : Bytes → Bytes → Key) (m : SessionMaterial) (hdr : Bytes) : Prop :=
  ∃ st ch peer, acceptHeader hmac (some m) hdr = .ok st ∧ st.aead = some ch ∧
    streamChannel hmac m.swap st.name = some peer ∧ ch.sendKey = peer.recvKey ∧ ch.recvKey = peer.sendKey

def marking (message : Bytes) (_ msg : Bytes) : Key := if msg = message then keyA else keyB

theorem sameKeys_iff {name} (decoded : decodeStreamHeader hdr = .ok name) (short : name.length < 64)
    (clean : 0 ∉ name) : (∀ hmac m, SameKeys hmac m hdr) ↔ SingleOctets name := by
  rw [← cstr_copyRange_iff clean short]
  constructor
  · intro same
    by_contra other
    have label : streamInfo (cstr (copyRange nameBuf name)) ++ [1] ≠ streamInfo name ++ [1] :=
      fun both => other (streamInfo_injective (append_cancel_right both))
    obtain ⟨st,ch,peer,accepted,bound,native,sends,-⟩ := same (marking (streamInfo name ++ [1])) ⟨keyA,keyA⟩
    have fits : name.length ≤ 238 := by omega
    rw [acceptHeader_eq _ _ decoded short] at accepted
    cases accepted
    rw [streamChannel_eq,if_pos fits] at native
    cases bound
    cases native
    have keys := congrArg (·.bytes.head?) sends
    simp [channelInit,forkKey,marking,label,keyA,keyB] at keys
  · intro read hmac m
    have native : streamChannel hmac m.swap name = some _ :=
      (streamChannel_eq hmac m.swap name).trans (if_pos (by omega))
    have same : cstr (copyRange nameBuf name) = name := read
    have accepted := acceptHeader_eq hmac (some m) decoded short
    rw [same] at accepted
    exact ⟨_,_,_,accepted,rfl,native,rfl,rfl⟩

/-- An accepted string without NUL arrives just when its way keeps it, and an accepted stream has the peer's keys just
    when the characters of its name are single octets. -/
theorem names_received_iff (way : Way) (s buf hdr name : Bytes) :
    (Passed way s buf → 0 ∉ s → (cstr buf = s ↔ way.Keeps s)) ∧
      (decodeStreamHeader hdr = .ok name → name.length < 64 → 0 ∉ name →
        ((∀ hmac m, SameKeys hmac m hdr) ↔ SingleOctets name)) :=
  ⟨read_iff,sameKeys_iff⟩

/-- A call of `Connect` that uses one string as instance ID and as channel name. -/
def connectAs (name : Bytes) : ConnectArgs where
  ref := true
  primary := true
  peerInstanceID := name
  deviceID := "phone"
  record := some ⟨name,replicate 32 1,replicate 32 2,replicate 32 3⟩
  datagrams := [⟨name,1⟩]

theorem ascii_name_received : cstr (copyRange nameBuf "chat") = "chat" ∧ ∀ hmac m, SameKeys hmac m (4 :: "chat") :=
  have received := names_received_iff .runes "chat" (copyRange nameBuf "chat") (4 :: "chat") "chat"
  ⟨(received.1 (.connectName (rfl : connect (some (connectAs "chat")) = .ok _) (rfl : _[0]? = _) rfl)
      (by decide)).mpr (show SingleOctets "chat" by decide),
    (received.2 (by decide) (by decide) (by decide)).mpr (by decide)⟩

/-- Of an accented letter only the first octet arrives, and an instance ID of 64 octets loses its last one. -/
theorem accented_name_is_cut : (connect (some (connectAs [0xC3,0xA9]))).map
        (fun handed => (handed.record.map (fun r => cstr r.peerInstanceId),handed.datagrams.map (fun d => cstr d.name))) =
      .ok (some [0xC3],[[0xC3]]) ∧
    (acceptHeader (fun _ _ => keyA) none [2,0xC3,0xA9]).map (fun st => (st.name,cstr st.cName)) =
      .ok ([0xC3,0xA9],[0xC3]) ∧
    (¬ ∀ hmac m, SameKeys hmac m [2,0xC3,0xA9]) ∧
    (goResolve (fun _ => (some ⟨replicate 64 97,[],[],[]⟩,true)) []).map (fun r => cstr r.peerInstanceId) =
      some (replicate 63 97) :=
  ⟨by decide,by decide,fun same => absurd ((sameKeys_iff (by decide) (by decide) (by decide)).mp same)
      (show ¬ SingleOctets [0xC3,0xA9] by decide),by decide⟩

end Pigeon.CwireNames
